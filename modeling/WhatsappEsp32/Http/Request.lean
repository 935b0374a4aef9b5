import WhatsappEsp32.Http.BodyFraming
import WhatsappEsp32.Http.Agreement

/-!
# Requests

`build_raw_request` writes the head of a request by hand, from a method, a path, a host and headers
that it checks with three different filters.

* `isHttpTokenByte`, `buildRawRequest`;
* `requestLines`: the lines it should consist of, and `splitLines`: how the peer reads it;
* `buildRawRequest_lines`: the peer reads those lines and no others.
-/

namespace WhatsappEsp32.Http

open RustStr

/-- `u8::is_ascii_alphanumeric`. -/
def isAsciiAlphanumeric (byte : UInt8) : Bool :=
  (0x30 ≤ byte && byte ≤ 0x39) || (0x41 ≤ byte && byte ≤ 0x5A) || (0x61 ≤ byte && byte ≤ 0x7A)

/-- `u8::is_ascii_control`. -/
def isAsciiControl (byte : UInt8) : Bool := byte < 0x20 || byte = 0x7F

/-- Tab, line feed, form feed, carriage return and space. -/
def isAsciiWhitespace (byte : UInt8) : Bool :=
  byte = 0x09 || byte = 0x0A || byte = 0x0C || byte = 0x0D || byte = 0x20

/-- `!#$%&'*+-.^_` and the like, besides letters and digits. -/
def isHttpTokenByte (byte : UInt8) : Bool :=
  isAsciiAlphanumeric byte ||
    [0x21, 0x23, 0x24, 0x25, 0x26, 0x27, 0x2A, 0x2B, 0x2D, 0x2E, 0x5E, 0x5F, 0x60, 0x7C,
      0x7E].contains byte

/-- Whether a header is left out, because the length of the body is written instead. -/
def replaced (body : Option Bytes) (key : String) : Bool :=
  body.isSome && eqIgnoreAsciiCase key.toList "content-length".toList

/-- The headers that `build_raw_request` refuses: no token for a name, or CR, LF or NUL in the
value. -/
def invalidHeader (key value : String) : Bool :=
  key.isEmpty || !(asBytes key).all isHttpTokenByte ||
    (asBytes value).any fun byte => byte = 0x0D || byte = 0x0A || byte = 0

/-- The loop over the headers, in the order in which the map hands them out. -/
def pushHeaders (body : Option Bytes) : List (String × String) → String → Except HttpError String
  | [], raw => .ok raw
  | (key, value) :: headers, raw =>
    if invalidHeader key value then
      .error (.message "Invalid HTTP header")
    else if replaced body key then
      pushHeaders body headers raw
    else
      pushHeaders body headers (raw ++ (key ++ ": " ++ value ++ "\r\n"))

/-- The request line and the first two fields. -/
def requestHead (method path host : String) : String :=
  method ++ " " ++ path ++ " HTTP/1.1\r\nHost: " ++ host ++ "\r\nConnection: close\r\n"

/-- The Content-Length line that `build_raw_request` adds when there is a body. -/
def lengthHeader (body : Option Bytes) : String :=
  match body with
  | some body => "Content-Length: " ++ toString body.length ++ "\r\n"
  | none => ""

/-- `build_raw_request`: the head of a request, each of its parts checked before it is written. -/
def buildRawRequest (method path host : String) (headers : List (String × String))
    (body : Option Bytes) : Except HttpError String :=
  if method.isEmpty || !(asBytes method).all isHttpTokenByte then
    .error (.message "Invalid HTTP method")
  else if path.toList.head? ≠ some '/' ||
      (asBytes path).any fun byte => isAsciiControl byte || byte = 0x20 then
    .error (.message "Invalid HTTP request target")
  else if host.isEmpty || (asBytes host).any fun byte => isAsciiControl byte || isAsciiWhitespace byte
  then
    .error (.message "Invalid HTTP host")
  else do
    let raw ← pushHeaders body headers (requestHead method path host)
    .ok (raw ++ lengthHeader body ++ "\r\n")

/-! ### Lines -/

/-- The pieces between the line breaks. -/
def splitLines : Bytes → List Bytes
  | [] => [[]]
  | 13 :: 10 :: rest => [] :: splitLines rest
  | b :: rest => (splitLines rest).modifyHead (b :: ·)

/-- Lines with their line breaks. -/
def joinLines (lines : List Bytes) : Bytes := lines.flatMap (· ++ [13, 10])

/-- A line that cannot be taken for several, nor for the end of the head. -/
structure HeadLine (line : Bytes) : Prop where
  ne_nil : line ≠ []
  noCr : 13 ∉ line
  noLf : 10 ∉ line

theorem splitLines_append {line : Bytes} (h : 13 ∉ line) (rest : Bytes) :
    splitLines (line ++ 13 :: 10 :: rest) = line :: splitLines rest := by
  induction line with
  | nil => simp [splitLines]
  | cons b line ih =>
    have hb : b ≠ 13 := fun hb => h (by simp [hb])
    have hline : 13 ∉ line := fun hmem => h (List.mem_cons_of_mem _ hmem)
    rw [List.cons_append, splitLines, ih hline]
    · rfl
    · intro _ hb13 _
      exact absurd hb13 hb

/-- A head is read as the lines it was written as, and an empty one. -/
theorem splitLines_joinLines {lines : List Bytes} (h : ∀ line ∈ lines, HeadLine line) :
    splitLines (joinLines lines ++ [13, 10]) = lines ++ [[], []] := by
  induction lines with
  | nil => rfl
  | cons line lines ih =>
    have hline := h line List.mem_cons_self
    have hrest := ih fun l hl => h l (List.mem_cons_of_mem _ hl)
    rw [joinLines, List.flatMap_cons, ← joinLines, List.append_assoc, List.append_assoc,
      List.cons_append, List.cons_append, List.nil_append, splitLines_append hline.noCr, hrest]
    rfl

/-- The first blank line is the end of the head. -/
theorem blank_at_end {lines : List Bytes} (h : ∀ line ∈ lines, HeadLine line)
    {before after : Bytes}
    (heq : joinLines lines ++ [13, 10] = before ++ 13 :: 10 :: 13 :: 10 :: after) : after = [] := by
  induction lines generalizing before with
  | nil =>
    have hlen := congrArg List.length heq
    simp [joinLines] at hlen
    omega
  | cons line lines ih =>
    have hline := h line List.mem_cons_self
    have hlines := fun l hl => h l (List.mem_cons_of_mem line hl)
    rw [joinLines, List.flatMap_cons, ← joinLines, List.append_assoc, List.append_assoc,
      List.cons_append, List.cons_append, List.nil_append] at heq
    -- a blank line right after this line: there is no other one
    have hnext : joinLines lines ++ [13, 10] = 13 :: 10 :: after → after = [] := by
      intro hnext
      cases lines with
      | nil => simpa [joinLines, eq_comm] using hnext
      | cons next lines =>
        obtain ⟨b, next', rfl⟩ := List.exists_cons_of_ne_nil (hlines next List.mem_cons_self).ne_nil
        have hb : b = 13 := by simpa [joinLines] using congrArg List.head? hnext
        exact absurd (by simp [hb]) (hlines _ List.mem_cons_self).noCr
    rcases List.append_eq_append_iff.mp heq with ⟨as, rfl, hrest⟩ | ⟨cs, rfl, hrest⟩
    · match as, hrest with
      | [], hrest => exact hnext (by simpa using hrest)
      | [a], hrest => simp at hrest
      | a :: a' :: as, hrest => exact ih hlines (List.cons.inj (List.cons.inj hrest).2).2
    · match cs, hrest with
      | [], hrest => exact hnext (by simpa using hrest.symm)
      | c :: cs, hrest =>
        have hc : c = 13 := by simpa using (congrArg List.head? hrest).symm
        exact absurd (by simp [hc]) hline.noCr

/-! ### What is written -/

/-- A field line. -/
def fieldLine (name value : String) : Bytes := asBytes name ++ 58 :: 32 :: asBytes value

/-- The first line of a request. -/
def requestLine (method path : String) : Bytes :=
  asBytes method ++ 32 :: (asBytes path ++ 32 :: asBytes "HTTP/1.1")

/-- The headers that are written: all of them, but for a `content-length` in any case if a body is
given. -/
def keptHeaders (headers : List (String × String)) (body : Option Bytes) : List (String × String) :=
  headers.filter fun header =>
    ¬(body ≠ none ∧ header.1.toList.map Char.toLower = "content-length".toList)

theorem replaced_iff {body : Option Bytes} {key : String} :
    replaced body key = true ↔
      body ≠ none ∧ key.toList.map Char.toLower = "content-length".toList := by
  have hlower : "content-length".toList.map Char.toLower = "content-length".toList := by decide
  rw [replaced, Bool.and_eq_true, Option.isSome_iff_ne_none, eqIgnoreAsciiCase, hlower,
    decide_eq_true_iff]

/-- The fields of the head, in order. -/
def requestFields (host : String) (headers : List (String × String)) (body : Option Bytes) :
    List (String × String) :=
  ("Host", host) :: ("Connection", "close") :: keptHeaders headers body ++
    (body.map fun body => ("Content-Length", toString body.length)).toList

/-- The lines of the head of a request. -/
def requestLines (method path host : String) (headers : List (String × String))
    (body : Option Bytes) : List Bytes :=
  requestLine method path ::
    (requestFields host headers body).map fun field => fieldLine field.1 field.2

@[simp] theorem joinLines_append (ls ms : List Bytes) :
    joinLines (ls ++ ms) = joinLines ls ++ joinLines ms := List.flatMap_append

theorem asBytes_requestHead (method path host : String) :
    asBytes (requestHead method path host) =
      joinLines [requestLine method path, fieldLine "Host" host, fieldLine "Connection" "close"] := by
  have hversion : asBytes " HTTP/1.1\r\nHost: " =
      32 :: asBytes "HTTP/1.1" ++ 13 :: 10 :: asBytes "Host" ++ [58, 32] := by decide
  have hconnection : asBytes "\r\nConnection: close\r\n" =
      13 :: 10 :: asBytes "Connection" ++ 58 :: 32 :: asBytes "close" ++ [13, 10] := by decide
  have hspace : asBytes " " = [32] := by decide
  simp [requestHead, joinLines, requestLine, fieldLine, asBytes_append, hversion, hconnection,
    hspace]

theorem asBytes_lengthHeader (body : Option Bytes) :
    asBytes (lengthHeader body) =
      joinLines ((body.map fun body => ("Content-Length", toString body.length)).toList.map
        fun field => fieldLine field.1 field.2) := by
  have hname : asBytes "Content-Length: " = asBytes "Content-Length" ++ [58, 32] := by decide
  have hbreak : asBytes "\r\n" = [13, 10] := by decide
  cases body with
  | none => rfl
  | some body =>
    have hheader : lengthHeader (some body) =
        "Content-Length: " ++ toString body.length ++ "\r\n" := rfl
    rw [hheader]
    simp [joinLines, fieldLine, asBytes_append, hname, hbreak]

/-- What the headers were checked for. -/
theorem pushHeaders_eq_ok {body : Option Bytes} {headers : List (String × String)} {raw raw' : String}
    (h : pushHeaders body headers raw = .ok raw') :
    (∀ header ∈ headers, invalidHeader header.1 header.2 = false) ∧
      asBytes raw' = asBytes raw ++
        joinLines ((keptHeaders headers body).map fun field => fieldLine field.1 field.2) := by
  induction headers generalizing raw with
  | nil =>
    cases h
    exact ⟨nofun, by simp [keptHeaders, joinLines]⟩
  | cons header headers ih =>
    obtain ⟨key, value⟩ := header
    rw [pushHeaders] at h
    split_ifs at h with hinvalid hreplaced
    · obtain ⟨hvalid, hraw⟩ := ih h
      refine ⟨?_, ?_⟩
      · rintro header (_ | ⟨_, hmem⟩)
        · simpa using hinvalid
        · exact hvalid header hmem
      · have hleft := replaced_iff.mp hreplaced
        rw [hraw, keptHeaders, keptHeaders, List.filter_cons_of_neg (by simpa using hleft)]
    · obtain ⟨hvalid, hraw⟩ := ih h
      refine ⟨?_, ?_⟩
      · rintro header (_ | ⟨_, hmem⟩)
        · simpa using hinvalid
        · exact hvalid header hmem
      · have hkept := mt replaced_iff.mpr hreplaced
        rw [hraw, keptHeaders, keptHeaders, List.filter_cons_of_pos (by simpa only [decide_eq_true_iff])]
        simp only [asBytes_append, List.map_cons, joinLines, List.flatMap_cons, fieldLine]
        have hcolon : asBytes ": " = [58, 32] := by decide
        have hbreak : asBytes "\r\n" = [13, 10] := by decide
        simp [hcolon, hbreak]

/-! ### The filters -/

theorem isHttpTokenByte_ne {b : UInt8} (h : isHttpTokenByte b = true) :
    b ≠ 13 ∧ b ≠ 10 ∧ b ≠ 32 ∧ b ≠ 58 := by
  refine ⟨?_, ?_, ?_, ?_⟩
  all_goals
    rintro rfl
    exact absurd h (by decide)

theorem ne_of_not_control {b c : UInt8} (h : isAsciiControl b = false) (hc : isAsciiControl c = true) :
    b ≠ c := by
  rintro rfl
  rw [h] at hc
  cases hc

/-- The bytes of a decimal number are no line breaks. -/
theorem ne_of_mem_toString {n : ℕ} {b : UInt8} (h : b ∈ asBytes (toString n)) : b ≠ 13 ∧ b ≠ 10 := by
  rw [Nat.toString_eq_ofList_toDigits, asBytes_ofList, List.mem_flatMap] at h
  obtain ⟨c, hc, hb⟩ := h
  have hdigit : 48 ≤ c.val ∧ c.val ≤ 57 := by
    have hchar : c.isDigit = true := Nat.isDigit_of_mem_toDigits (b := 10) (by decide) le_rfl hc
    simpa [Char.isDigit] using hchar
  have hsize : c.utf8Size = 1 := Char.utf8Size_eq_one_iff.mpr (UInt32.le_trans hdigit.2 (by decide))
  rw [String.utf8EncodeChar_eq_singleton hsize, List.mem_singleton] at hb
  have hle : 48 ≤ b.toNat := by
    have hlow : 48 ≤ c.val.toNat := hdigit.1
    have hhigh : c.val.toNat ≤ 57 := hdigit.2
    rw [hb, UInt32.toNat_toUInt8]
    omega
  constructor
  all_goals
    rintro rfl
    exact absurd hle (by decide)

theorem decimal_toString (n : ℕ) : decimal (toString n).toList = n := by
  have hdigits : (toString n).toList = Nat.toDigits 10 n := Nat.toList_repr
  rw [hdigits]
  have h := Nat.ofDigitChars_toDigits (b := 10) (n := n) (by decide) (by decide)
  rw [Nat.ofDigitChars_eq_foldl] at h
  simpa only [decimal, mul_comm] using h

theorem headLine_fieldLine {name value : String} (hname : ∀ b ∈ asBytes name, isHttpTokenByte b = true)
    (hvalue : ∀ b ∈ asBytes value, b ≠ 13 ∧ b ≠ 10) : HeadLine (fieldLine name value) := by
  refine ⟨by simp [fieldLine], ?_, ?_⟩
  all_goals
    intro hmem
    simp only [fieldLine, List.mem_append, List.mem_cons] at hmem
    rcases hmem with hmem | hmem | hmem | hmem
    · have hne := isHttpTokenByte_ne (hname _ hmem)
      simp at hne
    · exact absurd hmem (by decide)
    · exact absurd hmem (by decide)
    · have hne := hvalue _ hmem
      simp at hne

/-- What a request was checked for, and what it is. -/
structure Checked (method path host : String) (headers : List (String × String))
    (body : Option Bytes) (raw : String) : Prop where
  methodOk : ∀ b ∈ asBytes method, isHttpTokenByte b = true
  pathOk : ∀ b ∈ asBytes path, b ≠ 13 ∧ b ≠ 10 ∧ b ≠ 32
  hostOk : ∀ b ∈ asBytes host, b ≠ 13 ∧ b ≠ 10
  headersOk : ∀ header ∈ headers, invalidHeader header.1 header.2 = false
  raw_eq : asBytes raw = joinLines (requestLines method path host headers body) ++ [13, 10]

section

variable {method path host raw : String} {headers : List (String × String)} {body : Option Bytes}

theorem checked_of_ok (h : buildRawRequest method path host headers body = .ok raw) :
    Checked method path host headers body raw := by
  rw [buildRawRequest] at h
  split_ifs at h with hmethod hpath hhost
  cases hpush : pushHeaders body headers (requestHead method path host) with
  | error e =>
    rw [hpush] at h
    cases h
  | ok raw' =>
    rw [hpush] at h
    obtain rfl : raw' ++ lengthHeader body ++ "\r\n" = raw := Except.ok.inj h
    obtain ⟨hheaders, hraw⟩ := pushHeaders_eq_ok hpush
    refine ⟨?_, ?_, ?_, hheaders, ?_⟩
    · have hall : method ≠ "" ∧ ∀ b ∈ asBytes method, isHttpTokenByte b = true := by
        simpa using hmethod
      exact hall.2
    · have hall : path.toList.head? = some '/' ∧
          ∀ b ∈ asBytes path, isAsciiControl b = false ∧ b ≠ 32 := by simpa using hpath
      intro b hb
      obtain ⟨hcontrol, hspace⟩ := hall.2 b hb
      exact ⟨ne_of_not_control hcontrol (by decide), ne_of_not_control hcontrol (by decide), hspace⟩
    · have hall : host ≠ "" ∧
          ∀ b ∈ asBytes host, isAsciiControl b = false ∧ isAsciiWhitespace b = false := by
        simpa using hhost
      intro b hb
      have hcontrol := (hall.2 b hb).1
      exact ⟨ne_of_not_control hcontrol (by decide), ne_of_not_control hcontrol (by decide)⟩
    · have hbreak : asBytes "\r\n" = [13, 10] := by decide
      rw [asBytes_append, asBytes_append, hraw, asBytes_requestHead, asBytes_lengthHeader, hbreak,
        ← joinLines_append, ← joinLines_append]
      simp [requestLines, requestFields]

theorem Checked.requestLine (h : Checked method path host headers body raw) :
    HeadLine (requestLine method path) := by
  refine ⟨by simp [Http.requestLine], ?_, ?_⟩
  all_goals
    intro hmem
    simp only [Http.requestLine, List.mem_append, List.mem_cons] at hmem
    rcases hmem with hmem | hmem | hmem | hmem | hmem
    · have hne := isHttpTokenByte_ne (h.methodOk _ hmem)
      simp at hne
    · exact absurd hmem (by decide)
    · have hne := h.pathOk _ hmem
      simp at hne
    · exact absurd hmem (by decide)
    · exact absurd hmem (by decide)

/-- A field has a name without a colon, and no line break. -/
theorem Checked.field (h : Checked method path host headers body raw) :
    ∀ field ∈ requestFields host headers body,
      (∀ b ∈ asBytes field.1, isHttpTokenByte b = true) ∧
        ∀ b ∈ asBytes field.2, b ≠ 13 ∧ b ≠ 10 := by
  intro field hmem
  simp only [requestFields, List.cons_append, List.mem_cons, List.mem_append, Option.mem_toList,
    Option.map_eq_some_iff] at hmem
  rcases hmem with rfl | rfl | hmem | ⟨body, -, rfl⟩
  · have hname : ∀ b ∈ asBytes "Host", isHttpTokenByte b = true := by decide +kernel
    exact ⟨hname, h.hostOk⟩
  · exact ⟨by decide +kernel, by decide +kernel⟩
  · have hvalid := h.headersOk field (List.mem_filter.mp hmem).1
    have hall : (field.1 ≠ "" ∧ ∀ b ∈ asBytes field.1, isHttpTokenByte b = true) ∧
        ∀ b ∈ asBytes field.2, (b ≠ 13 ∧ b ≠ 10) ∧ b ≠ 0 := by
      simpa [invalidHeader] using hvalid
    exact ⟨hall.1.2, fun b hb => (hall.2 b hb).1⟩
  · have hname : ∀ b ∈ asBytes "Content-Length", isHttpTokenByte b = true := by decide +kernel
    exact ⟨hname, fun b => ne_of_mem_toString⟩

theorem Checked.headLine (h : Checked method path host headers body raw) :
    ∀ line ∈ requestLines method path host headers body, HeadLine line := by
  intro line hline
  rcases List.mem_cons.mp hline with rfl | hline
  · exact h.requestLine
  · obtain ⟨field, hmem, rfl⟩ := List.mem_map.mp hline
    exact headLine_fieldLine (h.field field hmem).1 (h.field field hmem).2

/-- With a body there is one length, that of the body. -/
theorem filter_contentLength (host : String) (headers : List (String × String)) (body : Bytes) :
    ((requestFields host headers (some body)).filter fun field =>
      eqIgnoreAsciiCase field.1.toList "content-length".toList) =
        [("Content-Length", toString body.length)] := by
  have hkept : (keptHeaders headers (some body)).filter (fun field =>
      eqIgnoreAsciiCase field.1.toList "content-length".toList) = [] := by
    rw [List.filter_eq_nil_iff]
    intro field hmem hlength
    have hkept := (List.mem_filter.mp hmem).2
    rw [decide_eq_true_iff, ← replaced_iff] at hkept
    exact hkept (by rw [replaced, hlength]; rfl)
  have hhost : eqIgnoreAsciiCase "Host".toList "content-length".toList = false := by decide
  have hconnection : eqIgnoreAsciiCase "Connection".toList "content-length".toList = false := by
    decide
  have hlength : eqIgnoreAsciiCase "Content-Length".toList "content-length".toList = true := by
    decide
  rw [requestFields, List.cons_append, List.cons_append,
    List.filter_cons_of_neg (by exact ne_true_of_eq_false hhost),
    List.filter_cons_of_neg (by exact ne_true_of_eq_false hconnection), List.filter_append, hkept,
    List.nil_append, Option.map_some, Option.toList_some,
    List.filter_cons_of_pos (by exact hlength), List.filter_nil]

end

/-- **A request is read as it was meant.**  The peer reads the request line with its three parts, the
host, `Connection: close`, one line for each header that is not replaced, the length of the body if
there is one, and one empty line at the end.  No other line break occurs in it, so the body begins
where the first blank line ends. -/
theorem buildRawRequest_lines {method path host raw : String} {headers : List (String × String)}
    {body : Option Bytes} (h : buildRawRequest method path host headers body = .ok raw) :
    splitLines (asBytes raw) = requestLines method path host headers body ++ [[], []] ∧
    (∀ line ∈ requestLines method path host headers body, 13 ∉ line ∧ 10 ∉ line) ∧
    (∀ before after, asBytes raw = before ++ 13 :: 10 :: 13 :: 10 :: after → after = []) ∧
    (requestLine method path).splitOn 32 = [asBytes method, asBytes path, asBytes "HTTP/1.1"] ∧
    (∀ field ∈ requestFields host headers body, (fieldLine field.1 field.2).span (· ≠ 58) =
      (asBytes field.1, 58 :: 32 :: asBytes field.2)) ∧
    ∀ b, body = some b →
      ((requestFields host headers body).filter fun field =>
        eqIgnoreAsciiCase field.1.toList "content-length".toList) =
          [("Content-Length", toString b.length)] ∧
      decimal (toString b.length).toList = b.length := by
  have hchecked := checked_of_ok h
  have hlines := hchecked.headLine
  refine ⟨?_, fun line hline => ⟨(hlines line hline).noCr, (hlines line hline).noLf⟩, ?_, ?_, ?_, ?_⟩
  · rw [hchecked.raw_eq]
    exact splitLines_joinLines hlines
  · intro before after heq
    rw [hchecked.raw_eq] at heq
    exact blank_at_end hlines heq
  · have hmethod : 32 ∉ asBytes method := fun hmem =>
      (isHttpTokenByte_ne (hchecked.methodOk _ hmem)).2.2.1 rfl
    have hpath : 32 ∉ asBytes path := fun hmem => (hchecked.pathOk _ hmem).2.2 rfl
    rw [requestLine, List.splitOn_append_cons_self_of_not_mem hmethod,
      List.splitOn_append_cons_self_of_not_mem hpath, List.splitOn_eq_singleton (by decide)]
  · intro field hmem
    have hname : ∀ b ∈ asBytes field.1, decide (b ≠ 58) = true := fun b hb => by
      simpa using (isHttpTokenByte_ne ((hchecked.field field hmem).1 b hb)).2.2.2
    rw [List.span_eq_takeWhile_dropWhile, fieldLine, List.takeWhile_append_of_pos hname,
      List.dropWhile_append_of_pos hname]
    simp
  · rintro b rfl
    exact ⟨filter_contentLength host headers b, decimal_toString b.length⟩

/-- A length that the caller supplies is replaced. -/
theorem suppliedLength_replaced :
    buildRawRequest "POST" "/upload" "host" [("content-LENGTH", "9"), ("X-Tag", "a: b")]
      (some [1, 2]) = .ok ("POST /upload HTTP/1.1\r\nHost: host\r\nConnection: close\r\n" ++
        "X-Tag: a: b\r\nContent-Length: 2\r\n\r\n") ∧
    splitLines (asBytes ("POST /upload HTTP/1.1\r\nHost: host\r\nConnection: close\r\n" ++
      "X-Tag: a: b\r\nContent-Length: 2\r\n\r\n")) =
        requestLines "POST" "/upload" "host" [("content-LENGTH", "9"), ("X-Tag", "a: b")]
          (some [1, 2]) ++ [[], []] := by
  have hok : buildRawRequest "POST" "/upload" "host" [("content-LENGTH", "9"), ("X-Tag", "a: b")]
      (some [1, 2]) = .ok ("POST /upload HTTP/1.1\r\nHost: host\r\nConnection: close\r\n" ++
        "X-Tag: a: b\r\nContent-Length: 2\r\n\r\n") := by decide
  exact ⟨hok, (buildRawRequest_lines hok).1⟩

end WhatsappEsp32.Http
