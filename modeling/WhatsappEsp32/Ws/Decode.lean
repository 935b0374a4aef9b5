import WhatsappEsp32.Ws.Frame

/-!
# Decoding a byte stream

What the bytes of a server mean, whatever the reads they arrive in.  `parseHead` cuts a header off
a byte string, `nextFrame` a whole frame, and `decode` reads frames until it has to stop.  The
reader of `ws.rs` is compared with these functions.

* `headOf`, `parseHead`, `parseHead_append`: a complete header does not depend on what follows it;
* `nextFrame`, `nextFrame_shorter`: a frame takes at least two bytes;
* `decode` with its two equations.
-/

namespace WhatsappEsp32.Ws

open RustIo

variable {A : Arch} (limits : Limits A)

/-- A header that has passed its checks. -/
structure Head where
  fin : Bool
  opcode : UInt8
  len : ℕ

/-- One frame cut off a stream: nothing but a failure, or a frame for the caller (if any), the
fragmented message in progress and the rest.  No failure at all stands for a panic. -/
inductive Step
  | stop (e : Option Failure)
  | more (out : Option Frame) (fragments : Option Partial) (rest : Bytes)

/-- The checks of a header of which all bytes are there. -/
def headOf (fragments : Option Partial) (b0 b1 : UInt8) (header : Bytes) :
    Except (Option Failure) Head :=
  match declaredLen A b1 header with
  | none => .error none
  | some (.error e) => .error (some (.io e))
  | some (.ok len) =>
    match checkFrame limits fragments (decide (b0 &&& 0x80 ≠ 0)) (b0 &&& 0x0F) len with
    | .error e => .error (some (.io e))
    | .ok () =>
      if len > A.isizeMax then
        .error (some .capacityOverflow)
      else
        .ok ⟨decide (b0 &&& 0x80 ≠ 0), b0 &&& 0x0F, len⟩

/-- Cut a header off a byte string. -/
def parseHead (fragments : Option Partial) : Bytes → Except (Option Failure) (Head × Bytes)
  | b0 :: b1 :: tail =>
    match checkStart b0 b1 with
    | .error e => .error (some (.io e))
    | .ok () =>
      if (b0 :: b1 :: tail).length < headerTotal b1 then
        .error (some (.io connectionClosed))
      else
        match headOf limits fragments b0 b1 (b0 :: b1 :: tail) with
        | .error e => .error e
        | .ok head => .ok (head, (b0 :: b1 :: tail).drop (headerTotal b1))
  | _ => .error (some (.io connectionClosed))

/-- What a dispatched frame contributes. -/
def Dispatched.step (rest : Bytes) : Dispatched → Step
  | .frame out fragments => .more (some out) fragments rest
  | .folded fragments => .more none fragments rest
  | .failed e _ => .stop (some e)
  | .panicked => .stop none

variable (A) in
/-- Cut a payload off a byte string and dispatch the frame. -/
def parseBody (fragments : Option Partial) (head : Head) (body : Bytes) : Step :=
  if body.length < head.len then
    .stop (some (.io connectionClosed))
  else
    (dispatch A fragments head.fin head.opcode (body.take head.len)).step (body.drop head.len)

/-- One frame off the bytes, or the error that stops the decoder. -/
def nextFrame (fragments : Option Partial) (bytes : Bytes) : Step :=
  match parseHead limits fragments bytes with
  | .error e => .stop e
  | .ok (head, body) => parseBody A fragments head body

/-! ### Headers -/

variable {limits} {fragments : Option Partial}

theorem two_le_headerTotal (b1 : UInt8) : 2 ≤ headerTotal b1 := by
  unfold headerTotal
  split_ifs <;> omega

theorem headerTotal_le (b1 : UInt8) : headerTotal b1 ≤ 10 := by
  unfold headerTotal
  split_ifs <;> omega

theorem declaredLen_append {b1 : UInt8} {header : Bytes} (h : headerTotal b1 ≤ header.length)
    (more : Bytes) : declaredLen A b1 (header ++ more) = declaredLen A b1 header := by
  unfold headerTotal at h
  unfold declaredLen
  by_cases h126 : len7 b1 = 126
  · rw [if_pos h126] at h
    have htake : ((header ++ more).drop 2).take 2 = (header.drop 2).take 2 := by
      rw [List.drop_append_of_le_length (by omega),
        List.take_append_of_le_length (by rw [List.length_drop]; omega)]
    rw [if_pos h126, if_pos h126, htake]
  · rw [if_neg h126] at h
    rw [if_neg h126, if_neg h126]
    by_cases h127 : len7 b1 = 127
    · rw [if_pos h127] at h
      have htake : ((header ++ more).drop 2).take 8 = (header.drop 2).take 8 := by
        rw [List.drop_append_of_le_length (by omega),
          List.take_append_of_le_length (by rw [List.length_drop]; omega)]
      rw [if_pos h127, if_pos h127, htake]
    · rw [if_neg h127, if_neg h127]

variable (limits fragments) in
theorem headOf_append (b0 : UInt8) {b1 : UInt8} {header : Bytes}
    (h : headerTotal b1 ≤ header.length) (more : Bytes) :
    headOf limits fragments b0 b1 (header ++ more) = headOf limits fragments b0 b1 header := by
  unfold headOf
  rw [declaredLen_append h]

theorem declaredLen_ne_none {b1 : UInt8} {header : Bytes} (h : headerTotal b1 ≤ header.length) :
    declaredLen A b1 header ≠ none := by
  unfold headerTotal at h
  unfold declaredLen
  split_ifs at h ⊢ with h126 h127
  · simp
  · simp only [List.length_take, List.length_drop]
    rw [if_pos (by omega)]
    simp
  · simp

/-- The three kinds of frame that pass the checks. -/
theorem checkFrame_cases {fin : Bool} {opcode : UInt8} {len : ℕ}
    (h : checkFrame limits fragments fin opcode len = .ok ()) :
    ((opcode = opClose ∨ opcode = opPing ∨ opcode = opPong) ∧ len ≤ maxControlPayload) ∨
    (opcode = opContinuation ∧ len ≤ limits.maxFrameSize ∧ ∃ fragment, fragments = some fragment ∧
      saturatingAdd A fragment.buf.length len ≤ limits.maxMessageSize) ∨
    ((opcode = opText ∨ opcode = opBinary) ∧ len ≤ limits.maxFrameSize ∧ fragments = none ∧
      (fin = false → len ≤ limits.maxMessageSize)) := by
  unfold checkFrame at h
  by_cases hcontrol : opcode = opClose ∨ opcode = opPing ∨ opcode = opPong
  · rw [if_pos hcontrol] at h
    split_ifs at h with hfin hlen
    exact Or.inl ⟨hcontrol, by omega⟩
  rw [if_neg hcontrol] at h
  by_cases hcont : opcode = opContinuation
  · rw [if_pos hcont] at h
    cases hfragments : fragments with
    | none =>
      rw [hfragments] at h
      cases h
    | some fragment =>
      rw [hfragments] at h
      simp only at h
      split_ifs at h with hmessage hframe
      exact Or.inr (Or.inl ⟨hcont, by omega, fragment, rfl, by omega⟩)
  rw [if_neg hcont] at h
  split_ifs at h with hdata hsome hframe hmessage
  refine Or.inr (Or.inr ⟨hdata, by omega, by simpa using hsome, fun hfin => ?_⟩)
  by_contra hgt
  exact hmessage ⟨by simp [hfin], by omega⟩

/-- What a header that passes the checks declares. -/
theorem headOf_eq_ok {b0 b1 : UInt8} {header : Bytes} {head : Head}
    (h : headOf limits fragments b0 b1 header = .ok head) :
    checkFrame limits fragments head.fin head.opcode head.len = .ok () ∧
      head.len ≤ A.isizeMax := by
  unfold headOf at h
  split at h
  · cases h
  · cases h
  · split at h
    · cases h
    · next hcheck =>
      split_ifs at h with hlen
      cases h
      exact ⟨hcheck, not_lt.mp hlen⟩

theorem headOf_ne_panic {b0 b1 : UInt8} {header : Bytes}
    (hlen : headerTotal b1 ≤ header.length) :
    headOf limits fragments b0 b1 header ≠ .error none := by
  intro h
  unfold headOf at h
  split at h
  · next hnone => exact declaredLen_ne_none hlen hnone
  · cases h
  · split at h
    · cases h
    · split_ifs at h
      cases h

theorem maxControlPayload_le (A : Arch) : maxControlPayload ≤ A.isizeMax := by
  have := A.u32_le
  unfold maxControlPayload Arch.isizeMax
  omega

/-- A payload is too large for any buffer only when the limits let it be. -/
theorem headOf_overflow {b0 b1 : UInt8} {header : Bytes}
    (h : headOf limits fragments b0 b1 header = .error (some .capacityOverflow)) :
    A.isizeMax < limits.maxFrameSize := by
  unfold headOf at h
  split at h
  · cases h
  · cases h
  · split at h
    · cases h
    · next len _ _ hcheck =>
      split_ifs at h with hlen
      have hcontrol := maxControlPayload_le A
      rcases checkFrame_cases hcheck with ⟨-, hle⟩ | ⟨-, hle, -⟩ | ⟨-, hle, -⟩ <;> omega

variable (limits fragments) in
/-- A header of which all bytes are there, with what follows it. -/
theorem parseHead_complete {b0 b1 : UInt8} {tail : Bytes} (hstart : checkStart b0 b1 = .ok ())
    (hlen : (b0 :: b1 :: tail).length = headerTotal b1) (more : Bytes) :
    parseHead limits fragments (b0 :: b1 :: tail ++ more) =
      (headOf limits fragments b0 b1 (b0 :: b1 :: tail)).map fun head => (head, more) := by
  have hle : ¬(b0 :: b1 :: (tail ++ more)).length < headerTotal b1 := by
    simp only [List.length_cons, List.length_append] at hlen ⊢
    omega
  have hdrop : (b0 :: b1 :: (tail ++ more)).drop (headerTotal b1) = more := by
    have hsplit : b0 :: b1 :: (tail ++ more) = (b0 :: b1 :: tail) ++ more := rfl
    rw [hsplit, ← hlen, List.drop_left]
  have hhead := headOf_append limits fragments b0 hlen.ge more
  show parseHead limits fragments (b0 :: b1 :: (tail ++ more)) = _
  simp only [parseHead, hstart, if_neg hle, hdrop]
  change headOf limits fragments b0 b1 (b0 :: b1 :: (tail ++ more)) = _ at hhead
  rw [hhead]
  cases headOf limits fragments b0 b1 (b0 :: b1 :: tail) <;> rfl

/-- A byte string that ends inside its header. -/
theorem parseHead_short {b0 b1 : UInt8} {tail : Bytes} (hstart : checkStart b0 b1 = .ok ())
    (hlen : (b0 :: b1 :: tail).length < headerTotal b1) :
    parseHead limits fragments (b0 :: b1 :: tail) = .error (some (.io connectionClosed)) := by
  simp only [parseHead, hstart, if_pos hlen]

theorem parseHead_start_error {b0 b1 : UInt8} {tail : Bytes} {e : IoError}
    (hstart : checkStart b0 b1 = .error e) :
    parseHead limits fragments (b0 :: b1 :: tail) = .error (some (.io e)) := by
  simp only [parseHead, hstart]

/-- What a successful parse says about the byte string. -/
theorem parseHead_eq_ok {bytes rest : Bytes} {head : Head}
    (h : parseHead limits fragments bytes = .ok (head, rest)) :
    ∃ b0 b1 tail, checkStart b0 b1 = .ok () ∧
      (b0 :: b1 :: tail).length = headerTotal b1 ∧ bytes = b0 :: b1 :: tail ++ rest ∧
      headOf limits fragments b0 b1 (b0 :: b1 :: tail) = .ok head := by
  match bytes with
  | [] => cases h
  | [b] => cases h
  | b0 :: b1 :: all =>
    cases hstart : checkStart b0 b1 with
    | error e =>
      rw [parseHead_start_error hstart] at h
      cases h
    | ok u =>
      by_cases hlen : (b0 :: b1 :: all).length < headerTotal b1
      · rw [parseHead_short hstart hlen] at h
        cases h
      · obtain ⟨tail, more, rfl, htotal⟩ : ∃ tail more, all = tail ++ more ∧
            (b0 :: b1 :: tail).length = headerTotal b1 := by
          refine ⟨_, _, (List.take_append_drop (headerTotal b1 - 2) all).symm, ?_⟩
          have h2 := two_le_headerTotal b1
          simp only [List.length_cons, List.length_take] at hlen ⊢
          omega
        change parseHead limits fragments (b0 :: b1 :: tail ++ more) = _ at h
        rw [parseHead_complete _ _ hstart htotal] at h
        cases hof : headOf limits fragments b0 b1 (b0 :: b1 :: tail) with
        | error e =>
          rw [hof] at h
          cases h
        | ok head' =>
          rw [hof] at h
          cases h
          exact ⟨b0, b1, tail, hstart, htotal, rfl, hof⟩

/-- A complete header does not depend on what follows it. -/
theorem parseHead_append {bytes rest : Bytes} {head : Head}
    (h : parseHead limits fragments bytes = .ok (head, rest)) (more : Bytes) :
    parseHead limits fragments (bytes ++ more) = .ok (head, rest ++ more) := by
  obtain ⟨b0, b1, tail, hstart, hlen, rfl, hof⟩ := parseHead_eq_ok h
  rw [List.append_assoc, parseHead_complete _ _ hstart hlen, hof]
  rfl

theorem parseHead_lt_two {bytes : Bytes} (h : bytes.length < 2) :
    parseHead limits fragments bytes = .error (some (.io connectionClosed)) := by
  match bytes with
  | [] => rfl
  | [b] => rfl
  | b0 :: b1 :: tail =>
    simp only [List.length_cons] at h
    omega

/-! ### Frames -/

theorem nextFrame_of_error {bytes : Bytes} {e : Option Failure}
    (h : parseHead limits fragments bytes = .error e) :
    nextFrame limits fragments bytes = .stop e := by
  unfold nextFrame
  rw [h]

theorem nextFrame_of_ok {bytes body : Bytes} {head : Head}
    (h : parseHead limits fragments bytes = .ok (head, body)) :
    nextFrame limits fragments bytes = parseBody A fragments head body := by
  unfold nextFrame
  rw [h]

/-- A frame whose header is complete. -/
theorem nextFrame_of_head {bytes : Bytes} {head : Head}
    (h : parseHead limits fragments bytes = .ok (head, [])) (body : Bytes) :
    nextFrame limits fragments (bytes ++ body) = parseBody A fragments head body :=
  nextFrame_of_ok (parseHead_append h body)

/-- A frame whose payload is complete. -/
theorem parseBody_complete {head : Head} {payload : Bytes} (h : head.len = payload.length)
    (rest : Bytes) : parseBody A fragments head (payload ++ rest) =
      (dispatch A fragments head.fin head.opcode payload).step rest := by
  unfold parseBody
  rw [if_neg (by rw [h, List.length_append]; omega), h, List.take_left, List.drop_left]

theorem Dispatched.step_rest {d : Dispatched} {rest rest' : Bytes} {out : Option Frame}
    {fragments' : Option Partial} (h : d.step rest = .more out fragments' rest') :
    rest' = rest := by
  cases d with
  | frame frame fragments =>
    cases h
    rfl
  | folded fragments =>
    cases h
    rfl
  | failed e fragments => cases h
  | panicked => cases h

theorem parseBody_shorter {head : Head} {body rest : Bytes} {out : Option Frame}
    {fragments' : Option Partial}
    (h : parseBody A fragments head body = .more out fragments' rest) :
    rest.length ≤ body.length := by
  unfold parseBody at h
  split_ifs at h
  rw [Dispatched.step_rest h, List.length_drop]
  omega

/-- A frame takes at least two bytes. -/
theorem nextFrame_shorter {bytes rest : Bytes} {out : Option Frame} {fragments' : Option Partial}
    (h : nextFrame limits fragments bytes = .more out fragments' rest) :
    rest.length + 2 ≤ bytes.length := by
  unfold nextFrame at h
  split at h
  · cases h
  · next head body hhead =>
    obtain ⟨b0, b1, tail, -, -, rfl, -⟩ := parseHead_eq_ok hhead
    have := parseBody_shorter h
    simp only [List.length_append, List.length_cons]
    omega

/-- Where and why decoding stops: at the frame at the head of `rest`. -/
structure Ending where
  failure : Option Failure
  fragments : Option Partial
  rest : Bytes

variable (limits) in
/-- Read frames until there is no further one. -/
def decode (fragments : Option Partial) (bytes : Bytes) : List Frame × Ending :=
  match h : nextFrame limits fragments bytes with
  | .stop e => ([], ⟨e, fragments, bytes⟩)
  | .more out fragments rest =>
    have : rest.length < bytes.length := by
      have := nextFrame_shorter h
      omega
    (out.toList ++ (decode fragments rest).1, (decode fragments rest).2)
termination_by bytes.length

theorem decode_stop {bytes : Bytes} {e : Option Failure}
    (h : nextFrame limits fragments bytes = .stop e) :
    decode limits fragments bytes = ([], ⟨e, fragments, bytes⟩) := by
  unfold decode
  split
  · next e' he =>
    rw [h] at he
    cases he
    rfl
  · next he =>
    rw [h] at he
    cases he

theorem decode_more {bytes rest : Bytes} {out : Option Frame} {fragments' : Option Partial}
    (h : nextFrame limits fragments bytes = .more out fragments' rest) :
    decode limits fragments bytes =
      (out.toList ++ (decode limits fragments' rest).1, (decode limits fragments' rest).2) := by
  conv_lhs => unfold decode
  split
  · next e' he =>
    rw [h] at he
    cases he
  · next he =>
    rw [h] at he
    cases he
    rfl

end WhatsappEsp32.Ws
