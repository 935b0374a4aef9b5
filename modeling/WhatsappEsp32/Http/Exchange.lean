import WhatsappEsp32.Http.Authority
import WhatsappEsp32.Http.Grammar

/-!
# A response, from the server to the caller

A server writes a status line, field lines and a blank line, and then bytes that carry the body in
one of three ways.  Whatever the pieces in which they arrive, the caller gets the status and the body.

* `ResponseHead`, `ResponseHead.bytes`: the head of a response, and how it is written;
* `Carries`: what the fields say of the bytes behind the head;
* `response_bytes`: the response that the bytes are;
* `response_received`: both paths hand it to the caller.
-/

namespace WhatsappEsp32.Http

open CrashLogic Scripted RustIo RustStr

/-! ### What a server writes -/

/-- The head of a response.  No part of it can be taken for two. -/
structure ResponseHead where
  version : String
  statusCode : ℕ
  reason : String
  fields : List (String × String)
  versionOk : version.toList ≠ [] ∧ ∀ c ∈ version.toList, isWhitespace c = false
  statusOk : statusCode < 2 ^ 16
  reasonOk : ∀ c ∈ reason.toList, c ≠ '\r' ∧ c ≠ '\n'
  nameOk : ∀ field ∈ fields, ∀ c ∈ field.1.toList, c ≠ ':' ∧ isWhitespace c = false
  valueOk : ∀ field ∈ fields, ∀ c ∈ field.2.toList, c ≠ '\r' ∧ c ≠ '\n'

/-- A field line, as characters. -/
def fieldText (field : String × String) : Str := field.1.toList ++ ':' :: ' ' :: field.2.toList

/-- The trimmed values of the fields of a name, in any case. -/
def named (name : String) (fields : List (String × String)) : List Str :=
  (fields.filter fun field => eqIgnoreAsciiCase field.1.toList name.toList).map fun field =>
    trim field.2.toList

/-- The bytes behind the head carry a body: it ends with the stream, is as long as its field says,
or is chunked; in the last two cases more may follow it. -/
inductive Carries (fields : List (String × String)) (body : Bytes) : Bytes → Prop
  | close : named "transfer-encoding" fields = [] → named "content-length" fields = [] →
      Carries fields body body
  | length {extra : Bytes} : named "transfer-encoding" fields = [] →
      named "content-length" fields = [(toString body.length).toList] → body.length < 2 ^ 64 →
      Carries fields body (body ++ extra)
  | chunked {value : Str} {coded extra : Bytes} : named "transfer-encoding" fields = [value] →
      isChunked value → named "content-length" fields = [] → ChunkedBody coded body →
      Carries fields body (coded ++ extra)

namespace ResponseHead

variable (head : ResponseHead)

/-- The status line of a head, without its CRLF. -/
def statusLine : Str :=
  head.version.toList ++ ' ' :: ((toString head.statusCode).toList ++ ' ' :: head.reason.toList)

/-- The lines of a head. -/
def textLines : List Str := head.statusLine :: head.fields.map fieldText

/-- The head up to its blank line. -/
def text : String := String.ofList (['\r', '\n'].intercalate head.textLines)

/-- The head as it is sent. -/
def bytes : Bytes := asBytes head.text ++ blankLine

/-! ### Its lines -/

theorem isWhitespace_digit {n : ℕ} : ∀ c ∈ (toString n).toList, isWhitespace c = false := by
  intro c hc
  have hdigits : (toString n).toList = Nat.toDigits 10 n := Nat.toList_repr
  rw [hdigits] at hc
  have hchar : c.isDigit = true := Nat.isDigit_of_mem_toDigits (b := 10) (by decide) le_rfl hc
  have hdigit : 48 ≤ c.val ∧ c.val ≤ 57 := by simpa [Char.isDigit] using hchar
  have hlow : 48 ≤ c.toNat := hdigit.1
  have hhigh : c.toNat ≤ 57 := hdigit.2
  simp only [isWhitespace, Bool.or_eq_false_iff, Bool.and_eq_false_iff, decide_eq_false_iff_not]
  omega

theorem ne_break {c : Char} (h : isWhitespace c = false) : c ≠ '\r' ∧ c ≠ '\n' := by
  constructor
  all_goals
    rintro rfl
    exact absurd h (by decide)

/-- No line is empty, and none has a line break in it. -/
theorem line_ok {line : Str} (h : line ∈ head.textLines) :
    line ≠ [] ∧ '\r' ∉ line ∧ '\n' ∉ line := by
  have hok : line ≠ [] ∧ ∀ c ∈ line, c ≠ '\r' ∧ c ≠ '\n' := by
    rcases List.mem_cons.mp h with rfl | hfield
    · refine ⟨by simp [statusLine], fun c hc => ?_⟩
      simp only [statusLine, List.mem_append, List.mem_cons] at hc
      rcases hc with hc | rfl | hc | rfl | hc
      · exact ne_break (head.versionOk.2 c hc)
      · decide
      · exact ne_break (isWhitespace_digit c hc)
      · decide
      · exact head.reasonOk c hc
    · obtain ⟨field, hmem, rfl⟩ := List.mem_map.mp hfield
      refine ⟨by simp [fieldText], fun c hc => ?_⟩
      simp only [fieldText, List.mem_append, List.mem_cons] at hc
      rcases hc with hc | rfl | rfl | hc
      · exact ne_break (head.nameOk field hmem c hc).2
      · decide
      · decide
      · exact head.valueOk field hmem c hc
  exact ⟨hok.1, fun hmem => (hok.2 _ hmem).1 rfl, fun hmem => (hok.2 _ hmem).2 rfl⟩

theorem lines_text : lines head.text.toList = head.textLines := by
  rw [text, String.toList_ofList]
  exact lines_intercalate fun line hline => ⟨(head.line_ok hline).1, (head.line_ok hline).2.2⟩

/-! ### Where it ends -/

theorem headLine_text {line : Str} (h : line ∈ head.textLines) :
    HeadLine (asBytes (String.ofList line)) := by
  obtain ⟨hne, hcr, hlf⟩ := head.line_ok h
  have hbreak : ∀ b : UInt8, b.toNat < 128 → ∀ d : Char, d.toNat = b.toNat → d ∉ line →
      b ∉ asBytes (String.ofList line) := by
    intro b hb d hd hnot hmem
    obtain ⟨c, hc, hcode⟩ := exists_char_of_mem_asBytes hmem hb
    rw [String.toList_ofList] at hc
    obtain rfl : c = d := Char.toNat_inj.mp (hcode.trans hd.symm)
    exact hnot hc
  refine ⟨fun hnil => ?_, hbreak 13 (by decide) '\r' rfl hcr, hbreak 10 (by decide) '\n' rfl hlf⟩
  have hempty : String.ofList line = "" := asBytes_injective (by rw [hnil]; rfl)
  exact hne (by simpa using congrArg String.toList hempty)

/-- The bytes of joined lines are the joined bytes of the lines. -/
theorem asBytes_intercalate {ls : List Str} (hne : ls ≠ []) :
    asBytes (String.ofList (['\r', '\n'].intercalate ls)) ++ [13, 10] =
      joinLines (ls.map fun line => asBytes (String.ofList line)) := by
  have hbreak : asBytes (String.ofList ['\r', '\n']) = [13, 10] := by decide
  induction ls with
  | nil => exact absurd rfl hne
  | cons l ls ih =>
    cases ls with
    | nil => simp [List.intercalate, joinLines]
    | cons l' ls =>
      have hjoin : ['\r', '\n'].intercalate (l :: l' :: ls) =
          l ++ (['\r', '\n'] ++ ['\r', '\n'].intercalate (l' :: ls)) := by
        simp [List.intercalate]
      have hrest := ih (List.cons_ne_nil l' ls)
      rw [hjoin, String.ofList_append, String.ofList_append, asBytes_append, asBytes_append, hbreak,
        List.append_assoc, List.append_assoc, hrest]
      simp [joinLines]

/-- The first blank line of a response is the one that ends its head. -/
theorem position_bytes (wire : Bytes) :
    position blankLine (head.bytes ++ wire) = some (asBytes head.text).length := by
  refine position_append (position_at_end (by decide) fun s t heq => ?_) wire
  have hlines := asBytes_intercalate (List.cons_ne_nil head.statusLine (head.fields.map fieldText))
  have hbytes : asBytes head.text ++ blankLine =
      joinLines (head.textLines.map fun line => asBytes (String.ofList line)) ++ [13, 10] := by
    rw [textLines, ← hlines, List.append_assoc]
    rfl
  rw [hbytes] at heq
  refine blank_at_end (fun line hline => ?_) heq
  obtain ⟨l, hl, rfl⟩ := List.mem_map.mp hline
  exact head.headLine_text hl

/-! ### What it says -/

theorem parseStatusCode_text : parseStatusCode (asBytes head.text) = .ok head.statusCode := by
  have hspace : isWhitespace ' ' = true := by decide
  have hdigits : (toString head.statusCode).toList ≠ [] := by
    rw [Nat.toString_eq_ofList_toDigits, String.toList_ofList]
    exact Nat.toDigits_ne_nil
  have hle : head.statusCode ≤ 2 ^ 16 - 1 := by
    have := head.statusOk
    omega
  unfold parseStatusCode fromUtf8Lossy
  simp only [fromUtf8_asBytes, head.lines_text, textLines, statusLine]
  rw [splitWhitespace_append head.versionOk.2 head.versionOk.1 hspace,
    splitWhitespace_append isWhitespace_digit hdigits hspace]
  simp only [List.getElem?_cons_succ, List.getElem?_cons_zero, Option.map_some,
    parseUnsigned_toString hle]

theorem splitOnce_fieldText {field : String × String} (h : field ∈ head.fields) :
    splitOnce ':' (fieldText field) = some (field.1.toList, ' ' :: field.2.toList) :=
  splitOnce_append (fun hmem => (head.nameOk field h _ hmem).1 rfl) _

theorem trim_cons_space (s : Str) : trim (' ' :: s) = trim s := by
  rw [trim, trim, trimStart, trimStart, List.dropWhile_cons_of_pos (by decide)]

/-- The values of the fields of a name, as the client collects them from the lines. -/
theorem values_eq (name : String) :
    ((Http.fields (head.fields.map fieldText)).filter fun field =>
        eqIgnoreAsciiCase (trim field.1) name.toList).map (fun field => trim field.2) =
      named name head.fields := by
  have hsplit : Http.fields (head.fields.map fieldText) =
      head.fields.map fun field => (field.1.toList, ' ' :: field.2.toList) := by
    rw [Http.fields, List.filterMap_map, ← List.filterMap_eq_map]
    exact List.filterMap_congr fun field hfield => head.splitOnce_fieldText hfield
  rw [hsplit, List.filter_map, List.map_map, named]
  have hfilter : head.fields.filter
      ((fun field => eqIgnoreAsciiCase (trim field.1) name.toList) ∘
        fun field : String × String => (field.1.toList, ' ' :: field.2.toList)) =
      head.fields.filter fun field => eqIgnoreAsciiCase field.1.toList name.toList := by
    refine List.filter_congr fun field hfield => ?_
    rw [Function.comp_apply, trim_eq_self fun c hc => (head.nameOk field hfield c hc).2]
  rw [hfilter]
  exact List.map_congr_left fun field _ => trim_cons_space field.2.toList

/-- The framing of the bytes behind the head takes the body off them. -/
theorem parseBodyFraming_text {body wire : Bytes} (h : Carries head.fields body wire) :
    ∃ framing, parseBodyFraming (asBytes head.text) = .ok framing ∧
      decodeBody framing wire = some body := by
  have hfields : fieldLines head.text = head.fields.map fieldText := by
    rw [fieldLines, lines_text]
    rfl
  have hte : transferEncodings (fieldLines head.text) = named "transfer-encoding" head.fields := by
    rw [hfields]
    exact head.values_eq "transfer-encoding"
  have hcl : contentLengths (fieldLines head.text) = named "content-length" head.fields := by
    rw [hfields]
    exact head.values_eq "content-length"
  have haccept : ∀ framing, framing? (fieldLines head.text) = some framing →
      parseBodyFraming (asBytes head.text) = .ok framing := fun framing hframing =>
    toOption_eq_some.mp ((parseBodyFraming_toOption head.text).trans hframing)
  cases h with
  | close htransfer hlength =>
    rw [htransfer] at hte
    rw [hlength] at hcl
    exact ⟨.close, haccept _ (framing?_eq_some_iff.mpr (Or.inr (Or.inr ⟨hte, hcl, rfl⟩))), rfl⟩
  | @length extra htransfer hlength hlt =>
    rw [htransfer] at hte
    rw [hlength] at hcl
    have hparse : length? (toString body.length).toList = some body.length := by
      rw [length?, parseUnsigned_toString (by omega)]
      rfl
    refine ⟨.length body.length, haccept _ (framing?_eq_some_iff.mpr
      (Or.inr (Or.inl ⟨_, _, hte, hcl, hparse, rfl⟩))), ?_⟩
    simp [decodeBody]
  | @chunked value coded extra htransfer hchunked hlength hcoded =>
    rw [htransfer] at hte
    rw [hlength] at hcl
    refine ⟨.chunked, haccept _ (framing?_eq_some_iff.mpr (Or.inl ⟨_, hte, hchunked, hcl, rfl⟩)), ?_⟩
    have hdecode : dechunk false (coded ++ extra) = .ok (body, extra) :=
      dechunk_eq_ok_iff.mpr ⟨coded, rfl, hcoded⟩
    simp only [decodeBody, hdecode]
    rfl

/-- The response that the bytes of a server are. -/
theorem response_bytes {body wire : Bytes} (h : Carries head.fields body wire) :
    response (head.bytes ++ wire) = some ⟨head.statusCode, body⟩ := by
  obtain ⟨framing, hframing, hbody⟩ := head.parseBodyFraming_text h
  have hhead : headOf (asBytes head.text) = some (head.statusCode, framing) := by
    simp only [headOf, head.parseStatusCode_text, hframing]
  have htake : (head.bytes ++ wire).take (asBytes head.text).length = asBytes head.text := by
    rw [bytes, List.append_assoc, List.take_left]
  have hdrop : (head.bytes ++ wire).drop ((asBytes head.text).length + 4) = wire := by
    rw [bytes, List.drop_left' (by simp [blankLine])]
  simp only [response, Option.bind_eq_bind, head.position_bytes wire, Option.bind_some, htake, hdrop,
    hhead, hbody]

end ResponseHead

/-! ### What the caller gets -/

/-- **A response is received as it was sent**: within its limits each path hands the caller the status
and the body that a server sent, in whatever pieces they arrive and are read. -/
theorem response_received (A : Arch) (head : ResponseHead) {body wire : Bytes}
    (hcarries : Carries head.fields body wire) {stream : Socket IoError}
    (hclean : stream.inbound.Clean) (hpayload : stream.inbound.payload = head.bytes ++ wire)
    (hwrite : stream.writeErr = none) {sizes sizes' : ℕ → ℕ} (hsizes : ∀ i, 0 < sizes i)
    (hsizes' : ∀ i, 0 < sizes' i) {calls : ℕ} (hcalls : stream.inbound.size + 1 < calls)
    (rawRequest rawRequest' : Bytes) (requestBody : Option Bytes) :
    ((head.bytes ++ wire).length ≤ maxResponseBodyBytes →
      doRequest A sizes stream rawRequest requestBody = .ok ⟨head.statusCode, body⟩) ∧
    (head.bytes.length ≤ maxResponseHeaderBytes →
      readStreamed calls sizes' stream rawRequest' = .ok ⟨head.statusCode, body⟩) := by
  -- both paths read what the grammar says of these bytes
  have hresponse : response stream.inbound.payload = some ⟨head.statusCode, body⟩ := by
    rw [hpayload]
    exact head.response_bytes hcarries
  constructor
  · intro hlimit
    have hbuffered := doRequest_spec A hsizes hclean rawRequest requestBody
    rw [hresponse] at hbuffered
    generalize doRequest A sizes stream rawRequest requestBody = o at hbuffered
    cases o with
    | ok r => rw [Option.some.inj hbuffered.2]
    | error e =>
      rcases hbuffered hwrite with hnone | hlong
      · cases hnone
      · rw [hpayload] at hlong
        omega
    | halted => exact hbuffered.elim
  · intro hlimit
    have hstreamed := readStreamed_spec hsizes' hclean hcalls rawRequest'
    rw [hresponse] at hstreamed
    generalize readStreamed calls sizes' stream rawRequest' = o at hstreamed
    cases o with
    | ok r => rw [Option.some.inj hstreamed.2]
    | error e =>
      rcases hstreamed hwrite with hnone | ⟨pos, hpos, hlong⟩
      · cases hnone
      · rw [hpayload, head.position_bytes wire, Option.some.injEq] at hpos
        have hlen : head.bytes.length = (asBytes head.text).length + 4 := List.length_append
        omega
    | halted => exact hstreamed.elim

/-- The head of a chunked answer to a request for something that is not there. -/
def notFound : ResponseHead where
  version := "HTTP/1.1"
  statusCode := 404
  reason := "Not Found"
  fields := [("Content-Type", "text/plain"), ("Transfer-Encoding", " Chunked")]
  versionOk := by simp [isWhitespace]
  statusOk := by decide
  reasonOk := by simp
  nameOk := by simp [isWhitespace]
  valueOk := by simp

/-- Its bytes, cut within the blank line. -/
def notFoundStream : Socket IoError where
  inbound :=
    [.data (notFound.bytes.dropLast), .data (10 :: asBytes "3\r\nno!\r\n0\r\n\r\n")]

theorem notFound_received :
    readStreamed 200 (fun i => i + 1) notFoundStream (asBytes "GET / HTTP/1.1\r\n\r\n") =
      .ok ⟨404, asBytes "no!"⟩ := by
  have hbody : ChunkedBody ([51, 13, 10] ++ asBytes "no!" ++ crlf ++ ([48, 13, 10] ++ crlf))
      (asBytes "no!" ++ []) :=
    .chunk ⟨[51], [], rfl, ⟨nofun, by decide +kernel, rfl⟩, by decide, Or.inl rfl, by decide⟩
      (by decide : 3 ≠ 0) rfl
      (.last ⟨[48], [], rfl, ⟨nofun, by decide +kernel, rfl⟩, by decide, Or.inl rfl, by decide⟩
        ⟨.blank, by decide⟩)
  have hcarries : Carries notFound.fields (asBytes "no!")
      ([51, 13, 10] ++ asBytes "no!" ++ crlf ++ ([48, 13, 10] ++ crlf) ++ []) :=
    .chunked (by decide +kernel : _ = ["Chunked".toList]) (by decide) (by decide +kernel) hbody
  have hclean : notFoundStream.inbound.Clean := by
    refine ⟨fun bytes hmem => ?_, fun e hmem => ?_⟩ <;>
      simp only [notFoundStream, List.mem_cons, List.not_mem_nil, or_false, Event.data.injEq,
        reduceCtorEq] at hmem
    rcases hmem with rfl | rfl
    · exact (by decide +kernel : notFound.bytes.dropLast ≠ [])
    · exact List.cons_ne_nil _ _
  have hreceived := response_received ⟨2 ^ 32 - 1, le_rfl, by decide⟩ notFound hcarries hclean
    (by decide +kernel) rfl (fun i => Nat.succ_pos i) (fun i => Nat.succ_pos i)
    (by decide +kernel : notFoundStream.inbound.size + 1 < 200) []
    (asBytes "GET / HTTP/1.1\r\n\r\n") none
  exact hreceived.2 (by decide +kernel)

end WhatsappEsp32.Http
