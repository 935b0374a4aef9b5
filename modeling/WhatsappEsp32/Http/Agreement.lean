import WhatsappEsp32.Http.Grammar
import WhatsappEsp32.Http.Response

/-!
# What the two response paths make of a byte string

* `headOf`: the head of a response, with or without its blank line (`headOf_blank`);
* `response`: the response that a byte string is, or none;
* `doRequest_spec`, `readStreamed_spec`: both paths give that response;
* `streaming_agrees`: so they agree.
-/

namespace WhatsappEsp32.Http

open CrashLogic Scripted RustIo RustStr

/-! ### Text that ends in ASCII -/

theorem asBytes_ofList (l : List Char) :
    asBytes (String.ofList l) = l.flatMap String.utf8EncodeChar := by
  simp [asBytes, List.utf8Encode]

/-- A character whose code ends in an ASCII byte has no other bytes. -/
theorem eq_nil_of_utf8EncodeChar {c : Char} {bytes : Bytes} {x : UInt8} (hx : x &&& 0x80 = 0)
    (h : String.utf8EncodeChar c = bytes ++ [x]) : bytes = [] := by
  have hlen : bytes.length < (String.utf8EncodeChar c).length := by simp [h]
  have hfirst : ((String.utf8EncodeChar c)[bytes.length]).IsUTF8FirstByte := by
    simp only [h, List.getElem_concat_length]
    exact Or.inl hx
  rw [UInt8.isUTF8FirstByte_getElem_utf8EncodeChar] at hfirst
  exact List.length_eq_zero_iff.mp hfirst

theorem fromUtf8_none_concat {b : Bytes} (h : fromUtf8 b = none) {x : UInt8}
    (hx : x &&& 0x80 = 0) : fromUtf8 (b ++ [x]) = none := by
  by_contra hne
  obtain ⟨s, hs⟩ := Option.ne_none_iff_exists'.mp hne
  obtain ⟨l, rfl⟩ := String.exists_eq_ofList s
  have hbytes := fromUtf8_eq_some_iff.mp hs
  rw [asBytes_ofList] at hbytes
  rcases List.eq_nil_or_concat l with rfl | ⟨l, c, rfl⟩
  · simp at hbytes
  · rcases List.eq_nil_or_concat (String.utf8EncodeChar c) with hnil | ⟨front, y, hc⟩
    · have hlength := String.length_utf8EncodeChar c
      have hpos := c.utf8Size_pos
      rw [hnil, List.length_nil] at hlength
      omega
    · rw [List.concat_eq_append] at hc
      simp only [List.concat_eq_append, List.flatMap_append, List.flatMap_cons, List.flatMap_nil,
        List.append_nil, hc, ← List.append_assoc] at hbytes
      obtain ⟨hfront, hy⟩ := List.append_inj' hbytes rfl
      cases hy
      rw [eq_nil_of_utf8EncodeChar hx hc, List.append_nil, ← asBytes_ofList] at hfront
      rw [← hfront, fromUtf8_asBytes] at h
      cases h

theorem fromUtf8_blank (b : Bytes) :
    fromUtf8 (b ++ blankLine) = (fromUtf8 b).map (· ++ "\r\n\r\n") := by
  cases h : fromUtf8 b with
  | none =>
    have h1 := fromUtf8_none_concat h (x := 13) (by decide)
    have h2 := fromUtf8_none_concat h1 (x := 10) (by decide)
    have h3 := fromUtf8_none_concat h2 (x := 13) (by decide)
    have h4 := fromUtf8_none_concat h3 (x := 10) (by decide)
    simpa [blankLine] using h4
  | some s =>
    have hblank : asBytes "\r\n\r\n" = blankLine := by decide
    rw [Option.map_some, fromUtf8_eq_some_iff, ← asBytes_of_fromUtf8 h, ← hblank]
    simp [asBytes]

/-! ### The head -/

theorem framingFields_blank (fields : List Str) (n : ℕ) (seen : Option ℕ) (chunked : Bool) :
    framingFields (fields ++ List.replicate n []) seen chunked =
      framingFields fields seen chunked := by
  induction fields generalizing seen chunked with
  | nil =>
    induction n with
    | zero => rfl
    | succ n ih => simpa [List.replicate_succ, framingFields, splitOnce] using ih
  | cons line fields ih =>
    simp only [List.cons_append, framingFields, ih]

/-- The blank line says nothing about the framing. -/
theorem parseBodyFraming_blank (head : Bytes) :
    parseBodyFraming (head ++ blankLine) = parseBodyFraming head := by
  unfold parseBodyFraming
  rw [fromUtf8_blank]
  cases fromUtf8 head with
  | none => rfl
  | some text =>
    obtain ⟨n, hn⟩ := lines_blank text.toList
    have hlist : (text ++ "\r\n\r\n").toList = text.toList ++ ['\r', '\n', '\r', '\n'] := by
      simp [String.toList_append]
    simp only [Option.map_some, hlist, hn]
    cases hlines : lines text.toList with
    | nil =>
      have hnil : List.drop 1 (List.replicate n ([] : Str)) = [] ++ List.replicate (n - 1) [] := by
        simp
      rw [List.nil_append, hnil, framingFields_blank]
      rfl
    | cons line fields =>
      show framingFields (fields ++ List.replicate n []) none false >>= framingOf = _
      rw [framingFields_blank]
      rfl

/-- The status and the framing of a head that is accepted. -/
def headOf (head : Bytes) : Option (ℕ × BodyFraming) :=
  match parseStatusCode head, parseBodyFraming head with
  | .ok statusCode, .ok framing => some (statusCode, framing)
  | _, _ => none

theorem parseStatusCode_blank {head : Bytes} {text : String} (h : fromUtf8 head = some text) :
    (parseStatusCode (head ++ blankLine)).toOption = (parseStatusCode head).toOption := by
  obtain ⟨n, hn⟩ := lines_blank text.toList
  have hlist : (text ++ "\r\n\r\n").toList = text.toList ++ ['\r', '\n', '\r', '\n'] := by
    simp [String.toList_append]
  unfold parseStatusCode fromUtf8Lossy
  rw [fromUtf8_blank, h]
  simp only [Option.map_some, hlist, hn]
  cases hlines : lines text.toList with
  | cons line fields => rfl
  | nil =>
    -- the first line is empty then, and has no second word
    cases n with
    | zero => rfl
    | succ n => rfl

theorem headOf_blank (head : Bytes) : headOf (head ++ blankLine) = headOf head := by
  unfold headOf
  rw [parseBodyFraming_blank]
  cases htext : fromUtf8 head with
  | none =>
    have hframing : parseBodyFraming head = .error .utf8 := by
      simp only [parseBodyFraming, htext]
    rw [hframing]
    cases parseStatusCode head <;> cases parseStatusCode (head ++ blankLine) <;> rfl
  | some text =>
    have hstatus := parseStatusCode_blank htext
    cases h : parseStatusCode head <;> cases h' : parseStatusCode (head ++ blankLine) <;>
      rw [h, h'] at hstatus <;> first | rfl | cases hstatus
    rfl

/-! ### The response that a byte string is -/

/-- The body that a framing takes off the front. -/
def decodeBody (framing : BodyFraming) (bytes : Bytes) : Option Bytes :=
  match framing with
  | .close => some bytes
  | .length n => if bytes.length < n then none else some (bytes.take n)
  | .chunked => ((dechunk false bytes).map Prod.fst).toOption

/-- The response in a whole delivery, if its head and its body can be read. -/
def response (bytes : Bytes) : Option HttpResponse := do
  let pos ← position blankLine bytes
  let (statusCode, framing) ← headOf (bytes.take pos)
  let body ← decodeBody framing (bytes.drop (pos + 4))
  some ⟨statusCode, body⟩

theorem slice_clean (bytes : Bytes) : (slice bytes).Clean := by
  unfold slice
  split_ifs with hnil
  · exact ⟨nofun, nofun⟩
  · refine ⟨fun b hb => ?_, fun e he => ?_⟩
    · rw [List.mem_singleton, Event.data.injEq] at hb
      exact hb ▸ hnil
    · rw [List.mem_singleton] at he
      cases he

@[simp] theorem slice_payload (bytes : Bytes) : (slice bytes).payload = bytes := by
  unfold slice
  split_ifs with hnil
  · simp [hnil]
  · simp

variable (A : Arch) {sizes : ℕ → ℕ}

theorem takeBody_spec (hsizes : ∀ i, 0 < sizes i) (framing : BodyFraming) {body : Bytes}
    (hbody : body.length ≤ A.usizeMax) :
    (takeBody A sizes framing body).Meets (fun data => decodeBody framing body = some data)
      (fun _ => decodeBody framing body = none) False := by
  unfold takeBody decodeBody
  cases framing with
  | close => exact rfl
  | length n =>
    simp only
    by_cases hlt : body.length < n
    · simp only [if_pos hlt]
      split_ifs <;> trivial
    · simp only [if_neg hlt, if_neg (by omega : ¬A.usizeMax < n)]
      rfl
  | chunked =>
    have hread := readToEnd_new (patient_of_clean (slice_clean body)) hsizes (Nat.lt_succ_self _)
    rw [slice_payload] at hread
    simp only
    generalize readToEnd ChunkedReader.read ((slice body).size + 1) sizes
      (.new (slice body)) = run at hread
    obtain ⟨result, c⟩ := run
    cases result with
    | ok data =>
      show ((dechunk false body).map Prod.fst).toOption = some data
      rw [hread.1]
      rfl
    | error e =>
      have hvalue : (dechunk false body).map Prod.fst = .error e := hread
      show ((dechunk false body).map Prod.fst).toOption = none
      rw [hvalue]
      rfl
    | halted => exact hread

theorem parseHttpResponse_spec (hsizes : ∀ i, 0 < sizes i) {bytes : Bytes}
    (hbytes : bytes.length ≤ A.usizeMax) :
    (parseHttpResponse A sizes bytes).Meets (fun r => response bytes = some r)
      (fun _ => response bytes = none) False := by
  unfold parseHttpResponse response
  cases hpos : position blankLine bytes with
  | none => rfl
  | some pos =>
    simp only [Option.bind_eq_bind, Option.bind_some, headOf]
    cases hstatus : parseStatusCode (bytes.take pos) with
    | error e => rfl
    | ok statusCode =>
      cases hframing : parseBodyFraming (bytes.take pos) with
      | error e => rfl
      | ok framing =>
        simp only [Option.bind_some]
        have hle : (bytes.drop (pos + 4)).length ≤ A.usizeMax := by
          rw [List.length_drop]
          omega
        have hbody := takeBody_spec A hsizes framing hle
        generalize takeBody A sizes framing (bytes.drop (pos + 4)) = result at hbody
        cases result with
        | ok data =>
          have hdecode : decodeBody framing (bytes.drop (pos + 4)) = some data := hbody
          simp only [hdecode]
          rfl
        | error e =>
          have hdecode : decodeBody framing (bytes.drop (pos + 4)) = none := hbody
          simp only [hdecode]
          rfl
        | halted => exact hbody

/-! ### The buffered path -/

theorem readResponse_spec (fuel : ℕ) {stream : Script UInt8 IoError} (h : stream.Clean)
    (buf : Bytes) (hbuf : buf.length ≤ maxResponseBodyBytes) (hfuel : stream.size < fuel) :
    (readResponse fuel stream buf).Meets
      (fun bytes => bytes = buf ++ stream.payload ∧ bytes.length ≤ maxResponseBodyBytes)
      (fun _ => maxResponseBodyBytes < (buf ++ stream.payload).length) False := by
  induction fuel generalizing stream buf with
  | zero => omega
  | succ fuel ih =>
    obtain ⟨bytes, rest, hread, -, hleaves, hend⟩ := h.read (Nat.succ_pos 4095)
    unfold readResponse
    rw [hread]
    cases bytes with
    | nil =>
      refine ⟨?_, hbuf⟩
      rw [hend rfl, List.append_nil]
    | cons b bytes =>
      have hsize := hleaves.size
      rw [List.length_cons] at hsize
      simp only [hleaves.payload, ← List.append_assoc]
      split_ifs with hlimit
      · show maxResponseBodyBytes < _
        rw [List.length_append, List.length_append]
        omega
      · refine ih (h.leaves hleaves) _ ?_ (by omega)
        rw [List.length_append]
        omega

theorem sendRequest_spec (stream : Socket IoError) (rawRequest : Bytes) (body : Option Bytes) :
    (∃ e, stream.writeErr = some e ∧ sendRequest stream rawRequest body = .error e) ∨
    ∃ outbound, stream.writeErr = none ∧
      sendRequest stream rawRequest body = .ok { stream with outbound := outbound } := by
  rcases Option.eq_none_or_eq_some stream.writeErr with hwrite | ⟨e, hwrite⟩
  · right
    have hsend : ∀ (s : Socket IoError) (bytes : Bytes), s.writeErr = none →
        s.writeAll bytes = .ok { s with outbound := s.outbound ++ bytes } := by
      intro s bytes hs
      simp only [Socket.writeAll, hs]
    rw [sendRequest, hsend _ _ hwrite]
    cases body with
    | none => exact ⟨stream.outbound ++ rawRequest, hwrite, rfl⟩
    | some body =>
      exact ⟨stream.outbound ++ rawRequest ++ body, hwrite, hsend
        { stream with outbound := stream.outbound ++ rawRequest } body hwrite⟩
  · refine Or.inl ⟨e, hwrite, ?_⟩
    have hfirst : stream.writeAll rawRequest = .error e := by simp only [Socket.writeAll, hwrite]
    rw [sendRequest, hfirst]
    rfl

/-- The buffered path gives the response that the stream is. -/
theorem doRequest_spec (hsizes : ∀ i, 0 < sizes i) {stream : Socket IoError}
    (h : stream.inbound.Clean) (rawRequest : Bytes) (body : Option Bytes) :
    (doRequest A sizes stream rawRequest body).Meets
      (fun r => stream.writeErr = none ∧ response stream.inbound.payload = some r)
      (fun _ => stream.writeErr = none →
        response stream.inbound.payload = none ∨
          maxResponseBodyBytes < stream.inbound.payload.length) False := by
  unfold doRequest
  rcases sendRequest_spec stream rawRequest body with ⟨e, herr, hsend⟩ | ⟨outbound, hok, hsend⟩
  · rw [hsend, herr]
    exact fun hnone => nomatch hnone
  · rw [hsend]
    have hread := readResponse_spec (stream.inbound.size + 1) h [] (Nat.zero_le _)
      (Nat.lt_succ_self _)
    simp only
    generalize readResponse (stream.inbound.size + 1) stream.inbound [] = result at hread
    cases result with
    | ok bytes =>
      obtain ⟨hbytes, hle⟩ := hread
      rw [List.nil_append] at hbytes
      have hmax : bytes.length ≤ A.usizeMax := by
        have := A.u32_le
        rw [maxResponseBodyBytes] at hle
        omega
      exact (parseHttpResponse_spec A hsizes hmax).mono (fun r hr => ⟨hok, hbytes ▸ hr⟩)
        (fun e he _ => Or.inl (hbytes ▸ he)) id
    | error e => exact fun _ => Or.inr hread
    | halted => exact hread

/-! ### The streaming path -/

theorem readHead_spec (fuel : ℕ) {stream : Script UInt8 IoError} (h : stream.Clean) {buf : Bytes}
    (hbuf : position blankLine buf = none) (hfuel : stream.size < fuel) :
    (readHead fuel stream buf).Meets
      (fun r => ∃ pos, r.1 = pos + 4 ∧ position blankLine (buf ++ stream.payload) = some pos ∧
        r.2.1 ++ r.2.2.payload = buf ++ stream.payload ∧ pos + 4 ≤ r.2.1.length ∧
        r.2.2.Clean ∧ r.2.2.size + r.2.1.length ≤ stream.size + buf.length)
      (fun _ => position blankLine (buf ++ stream.payload) = none ∨
        ∃ pos, position blankLine (buf ++ stream.payload) = some pos ∧
          maxResponseHeaderBytes < pos + 4) False := by
  induction fuel generalizing stream buf with
  | zero => omega
  | succ fuel ih =>
    obtain ⟨bytes, rest, hread, -, hleaves, hend⟩ := h.read (Nat.succ_pos 511)
    unfold readHead
    rw [hread]
    cases bytes with
    | nil =>
      left
      rw [hend rfl, List.append_nil]
      exact hbuf
    | cons b bytes =>
      have hsize := hleaves.size
      simp only [hleaves.payload, ← List.append_assoc]
      cases hpos : position blankLine (buf ++ b :: bytes) with
      | some pos =>
        refine ⟨pos, rfl, position_append hpos _, rfl, position_bound hpos, h.leaves hleaves, ?_⟩
        show rest.size + (buf ++ b :: bytes).length ≤ _
        rw [List.length_append]
        omega
      | none =>
        simp only
        split_ifs with hlimit
        · -- a blank line further on ends behind the limit
          cases hfull : position blankLine (buf ++ b :: bytes ++ rest.payload) with
          | none => exact Or.inl rfl
          | some pos =>
            refine Or.inr ⟨pos, rfl, ?_⟩
            by_contra hle
            have hwithin : pos + blankLine.length ≤ (buf ++ b :: bytes).length := by
              simp only [blankLine, List.length_cons, List.length_nil]
              omega
            have hfound := position_of_append hfull hwithin
            rw [hpos] at hfound
            cases hfound
        · refine (ih (h.leaves hleaves) hpos ?_).mono ?_ (fun _ => id) id
          · rw [List.length_cons] at hsize
            omega
          · rintro r ⟨pos, hend, hpos, hpayload, hle, hclean, hsize'⟩
            refine ⟨pos, hend, hpos, hpayload, hle, hclean, ?_⟩
            rw [List.length_append] at hsize'
            omega

theorem chain_clean {overflow : Bytes} {stream : Script UInt8 IoError} (h : stream.Clean) :
    (chain overflow stream).Clean := by
  unfold chain
  split_ifs with hnil
  · exact h
  · refine ⟨fun bytes hmem => ?_, fun e hmem => ?_⟩ <;> rcases List.mem_cons.mp hmem with heq | hmem
    · cases heq
      exact hnil
    · exact h.nonEmpty bytes hmem
    · cases heq
    · exact h.noFails e hmem

@[simp] theorem chain_payload (overflow : Bytes) (stream : Script UInt8 IoError) :
    (chain overflow stream).payload = overflow ++ stream.payload := by
  unfold chain
  split_ifs with hnil
  · simp [hnil]
  · simp

theorem chain_size_le (overflow : Bytes) (stream : Script UInt8 IoError) :
    (chain overflow stream).size ≤ stream.size + overflow.length + 1 := by
  unfold chain
  split_ifs
  · omega
  · simp only [Script.size, Script.payload_data, List.length_cons, List.length_append]
    omega

namespace BodyReader

/-- What the rest of a body of a given length reads as. -/
def exactValue (payload : Bytes) (remaining : ℕ) : Except IoError Bytes :=
  if payload.length < remaining then
    .error ⟨.unexpectedEof, "Connection closed prematurely: " ++
      toString (remaining - payload.length) ++ " bytes remaining"⟩
  else
    .ok (payload.take remaining)

theorem exactValue_append {bytes : Bytes} {remaining : ℕ} (h : bytes.length ≤ remaining)
    (payload : Bytes) : exactValue (bytes ++ payload) remaining =
      (exactValue payload (remaining - bytes.length)).map (bytes ++ ·) := by
  unfold exactValue
  have hsub : remaining - (bytes ++ payload).length =
      remaining - bytes.length - payload.length := by
    rw [List.length_append]
    omega
  by_cases hlt : payload.length < remaining - bytes.length
  · rw [if_pos hlt, if_pos (by rw [List.length_append]; omega), hsub]
    rfl
  · rw [if_neg hlt, if_neg (by rw [List.length_append]; omega), List.take_append,
      List.take_of_length_le h]
    rfl

/-- A reader that works and holds the value `v`, with at most `m` bytes and reads left. -/
def Holds : BodyReader → Except IoError Bytes → ℕ → Prop
  | exactLength inner remaining, v, m =>
    Patient inner ∧ exactValue inner.payload remaining = v ∧ inner.size ≤ m
  | close inner, v, m => Patient inner ∧ .ok inner.payload = v ∧ inner.size ≤ m
  | chunked inner, v, m => inner.Holds v m

/-- What one read of a body of a given length does. -/
theorem exactLength_serves {inner : Script UInt8 IoError} {remaining n m : ℕ} (h : Patient inner)
    (hsize : inner.size ≤ m) (hn : 0 < n) : ∃ o r', readExactLength inner remaining n = (o, r') ∧
      o.Meets
        (fun bytes => (bytes = [] ∧ exactValue inner.payload remaining = .ok [] ∧ True) ∨
          bytes ≠ [] ∧ ∃ v' m', m' < m ∧ Holds r' v' m' ∧
            exactValue inner.payload remaining = v'.map (bytes ++ ·))
        (fun e => (e.kind = .interrupted ∧
            ∃ m', m' < m ∧ Holds r' (exactValue inner.payload remaining) m') ∨
          e.kind ≠ .interrupted ∧ exactValue inner.payload remaining = .error e) False := by
  unfold readExactLength
  by_cases hzero : remaining = 0
  · rw [if_pos (Or.inr hzero)]
    exact ⟨_, _, rfl, Or.inl ⟨rfl, by simp [exactValue, hzero], trivial⟩⟩
  · rw [if_neg (by omega)]
    rcases inner.read_cases (by omega : 0 < min remaining n) with
      ⟨rest, hread, -, hend⟩ | ⟨bytes, rest, hread, hne, hle, hleaves⟩ |
      ⟨e, rest, hread, hmem, hleaves, hlt⟩
    · rw [hread]
      simp only [if_true]
      refine ⟨_, _, rfl, Or.inr ⟨nofun, ?_⟩⟩
      rw [hend h.nonEmpty, exactValue, if_pos (by simpa using Nat.pos_of_ne_zero hzero)]
      simp
    · rw [hread]
      simp only [if_neg hne, if_neg (by omega : ¬remaining < bytes.length)]
      have hpos := List.length_pos_iff.mpr hne
      have hrest := hleaves.size
      refine ⟨_, _, rfl, Or.inr ⟨hne, _, rest.size, by omega,
        ⟨h.leaves hleaves, rfl, le_rfl⟩, ?_⟩⟩
      rw [hleaves.payload, exactValue_append (by omega)]
    · rw [hread]
      refine ⟨_, _, rfl, Or.inl ⟨h.interrupted e hmem, rest.size, by omega, h.leaves hleaves, ?_,
        le_rfl⟩⟩
      rw [hleaves.payload, List.nil_append]

theorem read_serves : Serves read Holds (fun _ => True) := by
  intro r v m n hholds hn
  cases r with
  | exactLength inner remaining =>
    obtain ⟨h, rfl, hsize⟩ := hholds
    obtain ⟨o, r', hread, hmeets⟩ := exactLength_serves h hsize hn
    exact Triple.ofRunEq hread hmeets
  | close inner =>
    obtain ⟨h, rfl, hsize⟩ := hholds
    rcases inner.read_cases hn with ⟨rest, hread, -, hend⟩ |
      ⟨bytes, rest, hread, hne, -, hleaves⟩ | ⟨e, rest, hread, hmem, hleaves, hlt⟩
    · have hrun : read n (.close inner) = (.ok [], .close rest) := by simp only [read, hread]
      refine Triple.ofRunEq hrun (Or.inl ⟨rfl, ?_, trivial⟩)
      rw [hend h.nonEmpty]
      rfl
    · have hrun : read n (.close inner) = (.ok bytes, .close rest) := by simp only [read, hread]
      have hpos := List.length_pos_iff.mpr hne
      have hrest := hleaves.size
      refine Triple.ofRunEq hrun (Or.inr ⟨hne, _, rest.size, by omega,
        ⟨h.leaves hleaves, rfl, le_rfl⟩, ?_⟩)
      rw [hleaves.payload]
      rfl
    · have hrun : read n (.close inner) = (.error e, .close rest) := by simp only [read, hread]
      refine Triple.ofRunEq hrun (Or.inl ⟨h.interrupted e hmem, rest.size, by omega,
        h.leaves hleaves, ?_, le_rfl⟩)
      rw [hleaves.payload, List.nil_append]
  | chunked inner =>
    have hserves := ChunkedReader.read_serves inner v m n hholds hn inner rfl
    refine Triple.ofRunEq rfl (hserves.mono ?_ ?_ id)
    · rintro bytes (⟨hnil, hv, -⟩ | hsome)
      · exact Or.inl ⟨hnil, hv, trivial⟩
      · obtain ⟨hne, v', m', hlt, hholds', hv⟩ := hsome
        exact Or.inr ⟨hne, v', m', hlt, hholds', hv⟩
    · rintro e (⟨hkind, m', hlt, hholds'⟩ | hfail)
      · exact Or.inl ⟨hkind, m', hlt, hholds'⟩
      · exact Or.inr hfail

end BodyReader

/-- The reader of a body holds the body that the framing takes off the stream. -/
theorem bodyReader_holds {rest : Script UInt8 IoError} (h : rest.Clean) (framing : BodyFraming) :
    ∃ v, (bodyReader rest framing).Holds v rest.size ∧
      v.toOption = decodeBody framing rest.payload := by
  have hpatient := patient_of_clean h
  cases framing with
  | close => exact ⟨_, ⟨hpatient, rfl, le_rfl⟩, rfl⟩
  | length n =>
    refine ⟨_, ⟨hpatient, rfl, le_rfl⟩, ?_⟩
    unfold BodyReader.exactValue decodeBody
    simp only
    split_ifs <;> rfl
  | chunked => exact ⟨_, ChunkedReader.new_holds hpatient, rfl⟩

theorem startBody_eq_ok {headerEnd : ℕ} {headerBuf : Bytes} {stream : Script UInt8 IoError}
    {r : StreamingHttpResponse} :
    startBody headerEnd headerBuf stream = .ok r ↔
      ∃ framing, headOf (headerBuf.take headerEnd) = some (r.statusCode, framing) ∧
        r.body = bodyReader (chain (headerBuf.drop headerEnd) stream) framing := by
  unfold startBody headOf
  cases parseStatusCode (headerBuf.take headerEnd) with
  | error e => simp [bind, Except.bind]
  | ok statusCode =>
    cases parseBodyFraming (headerBuf.take headerEnd) with
    | error e => simp [bind, Except.bind]
    | ok framing =>
      cases r
      simp [bind, Except.bind, eq_comm]

/-- The streaming path gives the response that the stream is. -/
theorem readStreamed_spec {calls : ℕ} (hsizes : ∀ i, 0 < sizes i) {stream : Socket IoError}
    (h : stream.inbound.Clean) (hcalls : stream.inbound.size + 1 < calls) (rawRequest : Bytes) :
    (readStreamed calls sizes stream rawRequest).Meets
      (fun r => stream.writeErr = none ∧ response stream.inbound.payload = some r)
      (fun _ => stream.writeErr = none →
        response stream.inbound.payload = none ∨
          ∃ pos, position blankLine stream.inbound.payload = some pos ∧
            maxResponseHeaderBytes < pos + 4) False := by
  unfold readStreamed doStreamingRequest Socket.writeAll
  rcases Option.eq_none_or_eq_some stream.writeErr with hwrite | ⟨e, hwrite⟩
  · have hnil : position blankLine [] = none := rfl
    have hread := readHead_spec (stream.inbound.size + 1) h hnil (Nat.lt_succ_self _)
    simp only [hwrite]
    generalize readHead (stream.inbound.size + 1) stream.inbound [] = result at hread
    cases result with
    | halted => exact hread
    | error e =>
      refine fun _ => ?_
      rcases hread with hnone | hlimit
      · left
        rw [List.nil_append] at hnone
        simp [response, hnone]
      · exact Or.inr hlimit
    | ok r =>
      obtain ⟨headerEnd, headerBuf, rest⟩ := r
      obtain ⟨pos, hheaderEnd, hpos, hpayload, hle, hclean, hsize⟩ := hread
      simp only [List.nil_append, List.length_nil, Nat.add_zero] at *
      subst hheaderEnd
      -- the head that was read is the head of the stream with its blank line
      have hhead : headOf (headerBuf.take (pos + 4)) =
          headOf (stream.inbound.payload.take pos) := by
        have htake : headerBuf.take (pos + 4) = stream.inbound.payload.take pos ++ blankLine := by
          have hlen : blankLine.length = 4 := rfl
          rw [position_take hpos, ← hpayload, hlen, List.take_append_of_le_length hle]
        rw [htake, headOf_blank]
      have hdrop : headerBuf.drop (pos + 4) ++ rest.payload =
          stream.inbound.payload.drop (pos + 4) := by
        rw [← hpayload, List.drop_append_of_le_length hle]
      cases hstart : startBody (pos + 4) headerBuf rest with
      | error e =>
        refine fun _ => Or.inl ?_
        cases hparsed : headOf (stream.inbound.payload.take pos) with
        | none => simp [response, hpos, hparsed]
        | some p =>
          have hok : startBody (pos + 4) headerBuf rest = .ok
              ⟨p.1, bodyReader (chain (headerBuf.drop (pos + 4)) rest) p.2⟩ :=
            startBody_eq_ok.mpr ⟨p.2, hhead.trans hparsed, rfl⟩
          rw [hstart] at hok
          cases hok
      | ok r =>
        obtain ⟨framing, hparsed, hbody⟩ := startBody_eq_ok.mp hstart
        rw [hhead] at hparsed
        have hchain : (chain (headerBuf.drop (pos + 4)) rest).Clean := chain_clean hclean
        obtain ⟨v, hholds, hv⟩ := bodyReader_holds hchain framing
        rw [chain_payload, hdrop] at hv
        have hbound : (chain (headerBuf.drop (pos + 4)) rest).size < calls := by
          have := chain_size_le (headerBuf.drop (pos + 4)) rest
          rw [List.length_drop] at this
          omega
        have hrun := readToEnd_spec BodyReader.read_serves calls hsizes hholds hbound _ rfl
        have hresponse : response stream.inbound.payload =
            v.toOption.map (⟨r.statusCode, ·⟩) := by
          rw [hv]
          cases hdecode : decodeBody framing (stream.inbound.payload.drop (pos + 4)) <;>
            simp [response, hpos, hparsed, hdecode]
        simp only [hbody]
        generalize readToEnd BodyReader.read calls sizes _ = run at hrun
        obtain ⟨result, c⟩ := run
        cases result with
        | ok body =>
          refine ⟨trivial, ?_⟩
          rw [hresponse, hrun.1]
          rfl
        | error e =>
          refine fun _ => Or.inl ?_
          have hvalue : v = .error e := hrun
          rw [hresponse, hvalue]
          rfl
        | halted => exact hrun
  · simp only [hwrite]
    intro hnone
    cases hnone

/-! ### The two paths agree -/

/-- On every response within the limits, in whatever pieces each of them receives it, the two paths
succeed together and give the same status and body. -/
theorem streaming_agrees {stream stream' : Socket IoError} (h : stream.inbound.Clean)
    (h' : stream'.inbound.Clean) (hpayload : stream'.inbound.payload = stream.inbound.payload)
    (hwrites : stream'.writeErr = stream.writeErr)
    (hsize : stream.inbound.payload.length ≤ maxResponseBodyBytes)
    (hhead : ∀ pos, position blankLine stream.inbound.payload = some pos →
      pos + 4 ≤ maxResponseHeaderBytes)
    {sizes sizes' : ℕ → ℕ} (hsizes : ∀ i, 0 < sizes i) (hsizes' : ∀ i, 0 < sizes' i) {calls : ℕ}
    (hcalls : stream'.inbound.size + 1 < calls) (rawRequest rawRequest' : Bytes)
    (body : Option Bytes) :
    (∀ r, doRequest A sizes stream rawRequest body = .ok r ↔
      readStreamed calls sizes' stream' rawRequest' = .ok r) ∧
    doRequest A sizes stream rawRequest body ≠ .halted ∧
    readStreamed calls sizes' stream' rawRequest' ≠ .halted := by
  have hbuffered := doRequest_spec A hsizes h rawRequest body
  have hstreamed := readStreamed_spec hsizes' h' hcalls rawRequest'
  rw [hpayload, hwrites] at hstreamed
  generalize doRequest A sizes stream rawRequest body = o at hbuffered
  generalize readStreamed calls sizes' stream' rawRequest' = o' at hstreamed
  -- both sides hold their head to the same bound, so neither can fail over it alone
  have hlimit : ¬∃ pos, position blankLine stream.inbound.payload = some pos ∧
      maxResponseHeaderBytes < pos + 4 := by
    rintro ⟨pos, hpos, hlt⟩
    have := hhead pos hpos
    omega
  cases o with
  | halted => exact hbuffered.elim
  | ok r =>
    obtain ⟨hwrite, hr⟩ := hbuffered
    cases o' with
    | halted => exact hstreamed.elim
    | ok r' =>
      have hr' : some r = some r' := hr.symm.trans hstreamed.2
      exact ⟨fun _ => by rw [Option.some.inj hr'], nofun, nofun⟩
    | error e' =>
      rcases hstreamed hwrite with hnone | hlt
      · rw [hr] at hnone
        cases hnone
      · exact (hlimit hlt).elim
  | error e =>
    cases o' with
    | halted => exact hstreamed.elim
    | error e' => exact ⟨fun _ => ⟨nofun, nofun⟩, nofun, nofun⟩
    | ok r' =>
      obtain ⟨hwrite, hr⟩ := hstreamed
      rcases hbuffered hwrite with hnone | hlt
      · rw [hr] at hnone
        cases hnone
      · omega

/-- A response of one length and one byte too many, in two pieces. -/
def greeting : Socket IoError where
  inbound :=
    [.data (asBytes "HTTP/1.1 200 OK\r\nContent-Le"), .data (asBytes "ngth: 2\r\n\r\nhi!")]

/-- The same in one piece. -/
def greetingAtOnce : Socket IoError where
  inbound := [.data (asBytes "HTTP/1.1 200 OK\r\nContent-Length: 2\r\n\r\nhi!")]

/-- The streaming path gives from the pieces what the buffered path gives from the whole. -/
theorem greeting_agrees :
    readStreamed 200 (fun i => i + 1) greeting (asBytes "GET / HTTP/1.1\r\n\r\n") =
      .ok ⟨200, asBytes "hi"⟩ := by
  have hclean : greeting.inbound.Clean := by
    refine ⟨fun bytes hmem => ?_, fun e hmem => ?_⟩ <;>
      simp only [greeting, List.mem_cons, List.not_mem_nil, or_false, Event.data.injEq,
        reduceCtorEq] at hmem
    rcases hmem with rfl | rfl
    · exact (by decide +kernel : asBytes "HTTP/1.1 200 OK\r\nContent-Le" ≠ [])
    · exact (by decide +kernel : asBytes "ngth: 2\r\n\r\nhi!" ≠ [])
  have hatOnce : greetingAtOnce.inbound.Clean := by
    refine ⟨fun bytes hmem => ?_, fun e hmem => ?_⟩ <;>
      simp only [greetingAtOnce, List.mem_singleton, Event.data.injEq, reduceCtorEq] at hmem
    rw [hmem]
    exact (by decide +kernel : asBytes "HTTP/1.1 200 OK\r\nContent-Length: 2\r\n\r\nhi!" ≠ [])
  have hpayload : greeting.inbound.payload = greetingAtOnce.inbound.payload := by decide +kernel
  have hpos : position blankLine greetingAtOnce.inbound.payload = some 34 := by decide +kernel
  have hagree := streaming_agrees ⟨2 ^ 32 - 1, le_rfl, by decide⟩ hatOnce hclean hpayload rfl
    (by decide +kernel)
    (fun pos h => by rw [hpos, Option.some.injEq] at h; subst h; decide)
    (fun i => Nat.succ_pos i) (fun i => Nat.succ_pos i)
    (by decide +kernel : greeting.inbound.size + 1 < 200) [] (asBytes "GET / HTTP/1.1\r\n\r\n") none
  exact (hagree.1 _).mp (by decide +kernel)

end WhatsappEsp32.Http
