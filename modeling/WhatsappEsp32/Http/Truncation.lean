import WhatsappEsp32.Http.Agreement

/-!
# Truncated responses

A response that declares where its body ends is no response any more when its end is missing.

* `WireBody`: chunked bodies as they may appear on the wire, also such that the reader does not
  take: other extensions, trailers without a colon, sizes and lines beyond the limits;
* `wireBody_exact`: what the reader takes of such a body is all of it;
* `Framed`: a head that declares a length or a transfer coding, and the body that belongs to it;
* `truncated_fails`: every proper prefix of such a response fails on both paths.
-/

namespace WhatsappEsp32.Http

open CrashLogic Scripted RustIo RustStr

/-! ### Chunked bodies on the wire -/

/-- A size line: hexadecimal digits, and then anything that is no such digit. -/
def WireSizeLine (value : ℕ) (line : Bytes) : Prop :=
  ∃ digits ext, line = digits ++ ext ++ crlf ∧ IsNumber digits value ∧
    (∀ b ∈ ext.head?, isAsciiHexdigit b = false) ∧ 10 ∉ ext

/-- Trailer lines of any content and the blank line after them. -/
inductive WireTrailers : Bytes → Prop
  | blank : WireTrailers crlf
  | line {l rest : Bytes} : l ≠ [] → 10 ∉ l → WireTrailers rest → WireTrailers (l ++ crlf ++ rest)

/-- A chunked body as it stands on the wire. -/
abbrev WireBody : Bytes → Bytes → Prop := Body WireSizeLine WireTrailers

/-- A line is determined by the bytes that it starts. -/
theorem IsLine.inj {line line' rest rest' : Bytes} (h : IsLine line) (h' : IsLine line')
    (heq : line ++ rest = line' ++ rest') : line = line' ∧ rest = rest' := by
  have hcut : cutLine (line.length + line'.length) (line ++ rest) = .ok (line, rest) :=
    cutLine_eq_ok_iff.mpr ⟨rfl, h, by omega⟩
  have hcut' : cutLine (line.length + line'.length) (line ++ rest) = .ok (line', rest') :=
    cutLine_eq_ok_iff.mpr ⟨heq, h', by omega⟩
  rw [hcut] at hcut'
  cases hcut'
  exact ⟨rfl, rfl⟩

theorem takeWhile_hex {digits ext : Bytes} (h : ∀ b ∈ digits, isAsciiHexdigit b = true)
    (hext : ∀ b ∈ ext.head?, isAsciiHexdigit b = false) :
    (digits ++ ext).takeWhile isAsciiHexdigit = digits := by
  rw [List.takeWhile_append_of_pos h]
  cases ext with
  | nil => simp
  | cons b ext =>
    have hb := hext b rfl
    simp [hb]

theorem WireSizeLine.isLine {value : ℕ} {line : Bytes} (h : WireSizeLine value line) :
    IsLine line := by
  obtain ⟨digits, ext, rfl, hnumber, -, hext⟩ := h
  refine ⟨digits ++ ext, rfl, ?_⟩
  rw [List.mem_append, not_or]
  exact ⟨fun hlf => (isAsciiHexdigit_ne (hnumber.hex _ hlf)).1 rfl, hext⟩

/-- The reader finds the size that a line declares. -/
theorem WireSizeLine.size_eq {value value' : ℕ} {line : Bytes} (h : WireSizeLine value line)
    (h' : SizeLine value' line) : value = value' := by
  obtain ⟨digits, ext, hline, hnumber, hhead, -⟩ := h
  obtain ⟨digits', ext', hline', hnumber', -, hext', -⟩ := h'
  have hhead' : ∀ b ∈ ext'.head?, isAsciiHexdigit b = false := by
    rcases hext' with rfl | ⟨e, rfl, -⟩
    · exact nofun
    · intro b hb
      cases hb
      rfl
  rw [hline', List.append_cancel_right_eq] at hline
  have hdigits := takeWhile_hex hnumber.hex hhead
  rw [← hline, takeWhile_hex hnumber'.hex hhead'] at hdigits
  rw [← hnumber.fromHex_eq, ← hnumber'.fromHex_eq, hdigits]

theorem wireTrailers_exact {part taken left : Bytes} (h : WireTrailers part)
    (h' : Trailers taken) (heq : part = taken ++ left) : left = [] := by
  have hblank : IsLine crlf := ⟨[], rfl, List.not_mem_nil⟩
  induction h generalizing taken with
  | blank =>
    cases h' with
    | blank => simpa using heq
    | @line l rest hcolon hl _ =>
      have heq' : crlf ++ [] = l ++ crlf ++ (rest ++ left) := by
        rw [List.append_nil, ← List.append_assoc]
        exact heq
      have hnil : l = [] := by simpa using (hblank.inj ⟨l, rfl, hl⟩ heq').1
      rw [hnil] at hcolon
      cases hcolon
  | @line l rest hne hl _ ih =>
    cases h' with
    | blank =>
      have hnil : l = [] := by simpa using (IsLine.inj ⟨l, rfl, hl⟩ hblank heq).1
      exact (hne hnil).elim
    | @line l' rest' _ hl' hrest =>
      rw [List.append_assoc (l' ++ crlf)] at heq
      exact ih hrest (IsLine.inj ⟨l, rfl, hl⟩ ⟨l', rfl, hl'⟩ heq).2

/-- What the reader takes of a body is all of it. -/
theorem wireBody_exact {body data taken data' left : Bytes} (h : WireBody body data)
    (h' : ChunkedBody taken data') (heq : body = taken ++ left) : left = [] := by
  induction h generalizing taken data' with
  | @last line rest hline htrailers =>
    cases h' with
    | @last line' rest' hline' htrailers' =>
      rw [List.append_assoc] at heq
      obtain ⟨-, hrest⟩ := hline.isLine.inj (sizeLine_iff.mp hline').1 heq
      exact wireTrailers_exact htrailers htrailers'.1 hrest
    | @chunk size line' data rest' more hline' hsize hdata _ =>
      simp only [List.append_assoc] at heq
      obtain ⟨rfl, -⟩ := hline.isLine.inj (sizeLine_iff.mp hline').1 heq
      exact (hsize (hline.size_eq hline').symm).elim
  | @chunk size line data rest more hline hsize hdata _ ih =>
    cases h' with
    | @last line' rest' hline' htrailers' =>
      simp only [List.append_assoc] at heq
      obtain ⟨rfl, -⟩ := hline.isLine.inj (sizeLine_iff.mp hline').1 heq
      exact (hsize (hline.size_eq hline')).elim
    | @chunk size' line' data' rest' more' hline' hsize' hdata' hrest' =>
      simp only [List.append_assoc] at heq
      obtain ⟨rfl, hafter⟩ := hline.isLine.inj (sizeLine_iff.mp hline').1 heq
      have hlen : data.length = data'.length := by
        rw [hdata, hdata', hline.size_eq hline']
      obtain ⟨-, hafter'⟩ := List.append_inj hafter hlen
      exact ih hrest' (List.append_cancel_left hafter')

/-! ### Responses that declare their end -/

/-- A field line of a head. -/
def Field (text : String) (name value : Str) : Prop :=
  ∃ line ∈ (lines text.toList).drop 1, splitOnce ':' line = some (name, value)

/-- A head and the body that it declares.  A head that is no text declares any. -/
inductive Framed (head : Bytes) : Bytes → Prop
  | length {body : Bytes} : (∀ text, fromUtf8 head = some text → ∃ name value,
      Field text name value ∧ eqIgnoreAsciiCase (trim name) "content-length".toList ∧
        parseUnsigned (2 ^ 64 - 1) (trim value) = .ok body.length) → Framed head body
  | chunked {body data : Bytes} : (∀ text, fromUtf8 head = some text → ∃ name value,
      Field text name value ∧ eqIgnoreAsciiCase (trim name) "transfer-encoding".toList) →
      WireBody body data → Framed head body

/-- A step of the loop over the fields. -/
theorem framingFields_cons {line : Str} {rest : List Str} {seen : Option ℕ} {chunked : Bool}
    {r : Option ℕ × Bool} (h : framingFields (line :: rest) seen chunked = .ok r) :
    (splitOnce ':' line = none ∧ framingFields rest seen chunked = .ok r) ∨
    ∃ name value c s, splitOnce ':' line = some (name, value) ∧
      transferEncoding chunked name value = .ok c ∧ contentLength seen name value = .ok s ∧
      framingFields rest s c = .ok r := by
  rw [framingFields] at h
  split at h
  · exact Or.inl ⟨‹_›, h⟩
  · rename_i name value hsplit
    cases hte : transferEncoding chunked name value with
    | error e =>
      rw [hte] at h
      cases h
    | ok c =>
      cases hcl : contentLength seen name value with
      | error e =>
        simp only [bind, Except.bind, hte, hcl] at h
        cases h
      | ok s =>
        simp only [bind, Except.bind, hte, hcl] at h
        exact Or.inr ⟨name, value, c, s, hsplit, hte, hcl, h⟩

theorem transferEncoding_eq_ok {chunked c : Bool} {name value : Str}
    (h : transferEncoding chunked name value = .ok c)
    (hname : chunked = true ∨ eqIgnoreAsciiCase (trim name) "transfer-encoding".toList = true) :
    c = true := by
  unfold transferEncoding at h
  split_ifs at h with hte
  · cases h
    rfl
  · cases h
    exact hname.resolve_right hte

theorem contentLength_eq_ok {seen s : Option ℕ} {name value : Str} {n : ℕ}
    (h : contentLength seen name value = .ok s)
    (hname : seen = some n ∨ eqIgnoreAsciiCase (trim name) "content-length".toList = true ∧
      parseUnsigned (2 ^ 64 - 1) (trim value) = .ok n) : s = some n := by
  unfold contentLength at h
  by_cases hcl : eqIgnoreAsciiCase (trim name) "content-length".toList = true
  · rw [if_pos hcl] at h
    split at h
    · cases h
    · rename_i parsed hparsed
      split_ifs at h with hseen
      cases h
      rcases hname with rfl | ⟨-, hvalue⟩
      · exact (hseen rfl).elim
      · rw [hvalue] at hparsed
        cases hparsed
        rfl
  · rw [if_neg hcl] at h
    cases h
    rcases hname with rfl | ⟨hcl', -⟩
    · rfl
    · exact (hcl hcl').elim

/-- A transfer coding that is declared, or was before, is in the result. -/
theorem framingFields_chunked {fields : List Str} {seen seen' : Option ℕ} {chunked chunked' : Bool}
    (h : framingFields fields seen chunked = .ok (seen', chunked'))
    (hfield : chunked = true ∨ ∃ line ∈ fields, ∃ name value,
      splitOnce ':' line = some (name, value) ∧
        eqIgnoreAsciiCase (trim name) "transfer-encoding".toList = true) : chunked' = true := by
  induction fields generalizing seen chunked with
  | nil =>
    cases h
    rcases hfield with hchunked | ⟨line, hmem, -⟩
    · exact hchunked
    · cases hmem
  | cons line fields ih =>
    rcases framingFields_cons h with ⟨hnone, hrest⟩ | ⟨name, value, c, s, hsplit, hte, -, hrest⟩
    · refine ih hrest (hfield.imp_right ?_)
      rintro ⟨line', hmem, name, value, hsplit, hname⟩
      rcases List.mem_cons.mp hmem with rfl | hmem
      · rw [hnone] at hsplit
        cases hsplit
      · exact ⟨line', hmem, name, value, hsplit, hname⟩
    · refine ih hrest ?_
      rcases hfield with hchunked | ⟨line', hmem, name', value', hsplit', hname⟩
      · exact Or.inl (transferEncoding_eq_ok hte (Or.inl hchunked))
      · rcases List.mem_cons.mp hmem with rfl | hmem
        · rw [hsplit] at hsplit'
          cases hsplit'
          exact Or.inl (transferEncoding_eq_ok hte (Or.inr hname))
        · exact Or.inr ⟨line', hmem, name', value', hsplit', hname⟩

/-- A length that is declared, or was before, is in the result. -/
theorem framingFields_length {fields : List Str} {seen seen' : Option ℕ} {chunked chunked' : Bool}
    {n : ℕ} (h : framingFields fields seen chunked = .ok (seen', chunked'))
    (hfield : seen = some n ∨ ∃ line ∈ fields, ∃ name value,
      splitOnce ':' line = some (name, value) ∧
        eqIgnoreAsciiCase (trim name) "content-length".toList = true ∧
        parseUnsigned (2 ^ 64 - 1) (trim value) = .ok n) : seen' = some n := by
  induction fields generalizing seen chunked with
  | nil =>
    cases h
    rcases hfield with hseen | ⟨line, hmem, -⟩
    · exact hseen
    · cases hmem
  | cons line fields ih =>
    rcases framingFields_cons h with ⟨hnone, hrest⟩ | ⟨name, value, c, s, hsplit, -, hcl, hrest⟩
    · refine ih hrest (hfield.imp_right ?_)
      rintro ⟨line', hmem, name, value, hsplit, hname⟩
      rcases List.mem_cons.mp hmem with rfl | hmem
      · rw [hnone] at hsplit
        cases hsplit
      · exact ⟨line', hmem, name, value, hsplit, hname⟩
    · refine ih hrest ?_
      rcases hfield with hseen | ⟨line', hmem, name', value', hsplit', hname⟩
      · exact Or.inl (contentLength_eq_ok hcl (Or.inl hseen))
      · rcases List.mem_cons.mp hmem with rfl | hmem
        · rw [hsplit] at hsplit'
          cases hsplit'
          exact Or.inl (contentLength_eq_ok hcl (Or.inr hname))
        · exact Or.inr ⟨line', hmem, name', value', hsplit', hname⟩

/-- What the framing of an accepted head says. -/
theorem parseBodyFraming_eq_ok {head : Bytes} {framing : BodyFraming}
    (h : parseBodyFraming head = .ok framing) :
    ∃ text seen chunked, fromUtf8 head = some text ∧
      framingFields ((lines text.toList).drop 1) none false = .ok (seen, chunked) ∧
      framingOf (seen, chunked) = .ok framing := by
  unfold parseBodyFraming at h
  split at h
  · cases h
  · rename_i text htext
    cases hfields : framingFields ((lines text.toList).drop 1) none false with
    | error e =>
      rw [hfields] at h
      cases h
    | ok r =>
      rw [hfields] at h
      exact ⟨text, r.1, r.2, htext, hfields, h⟩

/-- A part of a declared body that the framing takes for the body is all of it. -/
theorem decodeBody_framed {head body : Bytes} (h : Framed head body) {framing : BodyFraming}
    (hframing : parseBodyFraming head = .ok framing) {taken left data : Bytes}
    (hbody : body = taken ++ left) (hdata : decodeBody framing taken = some data) : left = [] := by
  obtain ⟨text, seen, chunked, htext, hfields, hof⟩ := parseBodyFraming_eq_ok hframing
  cases h with
  | length hdeclared =>
    obtain ⟨name, value, ⟨line, hmem, hsplit⟩, hname, hvalue⟩ := hdeclared text htext
    have hseen := framingFields_length hfields
      (Or.inr ⟨line, hmem, name, value, hsplit, hname, hvalue⟩)
    subst hseen
    cases chunked with
    | true => cases hof
    | false =>
      cases hof
      simp only [decodeBody] at hdata
      split_ifs at hdata with hlt
      rw [hbody, List.length_append] at hlt
      exact List.length_eq_zero_iff.mp (by omega)
  | chunked hdeclared hwire =>
    obtain ⟨name, value, ⟨line, hmem, hsplit⟩, hname⟩ := hdeclared text htext
    have hchunked := framingFields_chunked hfields
      (Or.inr ⟨line, hmem, name, value, hsplit, hname⟩)
    subst hchunked
    cases seen with
    | some n => cases hof
    | none =>
      cases hof
      simp only [decodeBody] at hdata
      cases hdechunk : dechunk false taken with
      | error e =>
        rw [hdechunk] at hdata
        cases hdata
      | ok p =>
        obtain ⟨decoded, rest⟩ := p
        obtain ⟨chunkedBody, htaken, hchunkedBody⟩ := dechunk_eq_ok_iff.mp hdechunk
        rw [htaken, List.append_assoc] at hbody
        exact (List.append_eq_nil_iff.mp (wireBody_exact hwire hchunkedBody hbody)).2

/-- A proper prefix of a response that declares its end is no response. -/
theorem response_truncated {head body : Bytes}
    (hhead : position blankLine (head ++ blankLine ++ body) = some head.length)
    (h : Framed head body) {bytes missing : Bytes}
    (hbytes : head ++ blankLine ++ body = bytes ++ missing) (hmissing : missing ≠ []) :
    response bytes = none := by
  by_contra hsome
  obtain ⟨r, hr⟩ := Option.ne_none_iff_exists'.mp hsome
  unfold response at hr
  simp only [Option.bind_eq_bind, Option.bind_eq_some_iff, Prod.exists] at hr
  obtain ⟨pos, hpos, statusCode, framing, hparsed, data, hdata, -⟩ := hr
  -- the blank line that is found is the one that ends the head
  have hfull := position_append hpos missing
  rw [← hbytes, hhead, Option.some.injEq] at hfull
  have hlen : pos + 4 ≤ bytes.length := position_bound hpos
  have hsplit : bytes = head ++ blankLine ++ bytes.drop (pos + 4) := by
    have hblank : blankLine.length = 4 := rfl
    have htake := congrArg (List.take (pos + 4)) hbytes
    rw [List.take_append_of_le_length hlen, List.take_left' (by simp [hfull, hblank])] at htake
    rw [htake, List.take_append_drop]
  have hheadBytes : bytes.take pos = head := by
    rw [hsplit, List.append_assoc, ← hfull, List.take_left]
  rw [hheadBytes] at hparsed
  have hframing : parseBodyFraming head = .ok framing := by
    unfold headOf at hparsed
    split at hparsed
    · cases hparsed
      assumption
    · cases hparsed
  rw [hsplit, List.append_assoc (head ++ blankLine), List.append_cancel_left_eq] at hbytes
  exact hmissing (decodeBody_framed h hframing hbytes hdata)

/-- No part of a response that declares its end passes for a response: in whatever pieces it
arrives and is read, both paths end in an error. -/
theorem truncated_fails (A : Arch) {head body : Bytes}
    (hhead : position blankLine (head ++ blankLine ++ body) = some head.length)
    (h : Framed head body) {stream : Socket IoError} (hclean : stream.inbound.Clean)
    {missing : Bytes} (hmissing : missing ≠ [])
    (hpayload : head ++ blankLine ++ body = stream.inbound.payload ++ missing)
    {sizes sizes' : ℕ → ℕ} (hsizes : ∀ i, 0 < sizes i) (hsizes' : ∀ i, 0 < sizes' i) {calls : ℕ}
    (hcalls : stream.inbound.size + 1 < calls) (rawRequest rawRequest' : Bytes)
    (requestBody : Option Bytes) :
    (∃ e, doRequest A sizes stream rawRequest requestBody = .error e) ∧
    ∃ e, readStreamed calls sizes' stream rawRequest' = .error e := by
  have hnone := response_truncated hhead h hpayload hmissing
  have hbuffered := doRequest_spec A hsizes hclean rawRequest requestBody
  have hstreamed := readStreamed_spec hsizes' hclean hcalls rawRequest'
  rw [hnone] at hbuffered hstreamed
  constructor
  · generalize doRequest A sizes stream rawRequest requestBody = o at hbuffered
    cases o with
    | ok r => exact nomatch hbuffered.2
    | error e => exact ⟨e, rfl⟩
    | halted => exact hbuffered.elim
  · generalize readStreamed calls sizes' stream rawRequest' = o at hstreamed
    cases o with
    | ok r => exact nomatch hstreamed.2
    | error e => exact ⟨e, rfl⟩
    | halted => exact hstreamed.elim

/-- A chunked response without its last line end. -/
def cutShort : Socket IoError where
  inbound :=
    [.data (asBytes "HTTP/1.1 200 OK\r\nTransfer-Encoding: chunked\r\n\r\n2\r\nh"),
      .data (asBytes "i\r\n0\r\n")]

theorem cutShort_fails :
    ∃ e, readStreamed 200 (fun i => i + 1) cutShort (asBytes "GET / HTTP/1.1\r\n\r\n") =
      .error e := by
  have hframed : Framed (asBytes "HTTP/1.1 200 OK\r\nTransfer-Encoding: chunked")
      ([50, 13, 10] ++ [104, 105] ++ crlf ++ ([48, 13, 10] ++ crlf)) := by
    refine Framed.chunked (fun text htext => ?_) (.chunk
      ⟨[50], [], rfl, ⟨nofun, by decide +kernel, rfl⟩, nofun, nofun⟩ (by decide : 2 ≠ 0) rfl
      (.last ⟨[48], [], rfl, ⟨nofun, by decide +kernel, rfl⟩, nofun, nofun⟩ .blank))
    rw [fromUtf8_asBytes, Option.some.injEq] at htext
    subst htext
    exact ⟨"Transfer-Encoding".toList, " chunked".toList, ⟨"Transfer-Encoding: chunked".toList,
      by decide +kernel, by decide +kernel⟩, by decide +kernel⟩
  have hclean : cutShort.inbound.Clean := by
    refine ⟨fun bytes hmem => ?_, fun e hmem => ?_⟩ <;>
      simp only [cutShort, List.mem_cons, List.not_mem_nil, or_false, Event.data.injEq,
        reduceCtorEq] at hmem
    rcases hmem with rfl | rfl
    · exact (by decide +kernel :
        asBytes "HTTP/1.1 200 OK\r\nTransfer-Encoding: chunked\r\n\r\n2\r\nh" ≠ [])
    · exact (by decide +kernel : asBytes "i\r\n0\r\n" ≠ [])
  exact (truncated_fails ⟨2 ^ 32 - 1, le_rfl, by decide⟩ (by decide +kernel) hframed hclean
    (List.cons_ne_nil 13 [10]) (by decide +kernel) (fun i => Nat.succ_pos i)
    (fun i => Nat.succ_pos i) (by decide +kernel) [] (asBytes "GET / HTTP/1.1\r\n\r\n") none).2

end WhatsappEsp32.Http
