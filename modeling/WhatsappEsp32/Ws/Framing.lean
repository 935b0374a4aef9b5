import WhatsappEsp32.Ws.Session

/-!
# Reading undoes the server's framing

A server sends text and binary messages, cut into fragments with control frames in between, and
control frames.  `encodeItems` writes them as unmasked frames with the shortest form of each length,
and `itemFrames` says which frames the client should see.

* `serverFrame`, `parseHead_serverFrame`: one frame, in each of the three forms of its length;
* `Item`, `encodeItems`, `itemFrames`: what a server sends and what it means;
* `decode_encodeItems`: decoding gives the frames and ends with no message in progress;
* `readFrame_undoes_framing`: so does a connected client, whatever the reads.
-/

namespace WhatsappEsp32.Ws

open CrashLogic Scripted RustIo WsClient

variable {A : Arch} {limits : Limits A}

/-! ### Lengths -/

/-- A number as `width` big-endian bytes. -/
def toBeBytes : ℕ → ℕ → Bytes
  | 0, _ => []
  | width + 1, n => toBeBytes width (n / 256) ++ [UInt8.ofNat n]

@[simp] theorem length_toBeBytes (width n : ℕ) : (toBeBytes width n).length = width := by
  induction width generalizing n with
  | zero => rfl
  | succ width ih => rw [toBeBytes, List.length_append, ih, List.length_singleton]

theorem fromBeBytes_append (bytes : Bytes) (b : UInt8) :
    fromBeBytes (bytes ++ [b]) = fromBeBytes bytes * 256 + b.toNat := by
  simp [fromBeBytes, List.foldl_append]

theorem fromBeBytes_toBeBytes {width n : ℕ} (h : n < 256 ^ width) :
    fromBeBytes (toBeBytes width n) = n := by
  induction width generalizing n with
  | zero =>
    have : n = 0 := by simpa using h
    subst this
    rfl
  | succ width ih =>
    have hdiv : n / 256 < 256 ^ width := by
      rw [pow_succ] at h
      exact Nat.div_lt_of_lt_mul (by omega)
    rw [toBeBytes, fromBeBytes_append, ih hdiv, UInt8.toNat_ofNat']
    omega

/-- The length of a payload, in its shortest form. -/
def lengthBytes (len : ℕ) : Bytes :=
  if len ≤ 125 then
    [UInt8.ofNat len]
  else if len ≤ 0xFFFF then
    126 :: toBeBytes 2 len
  else
    127 :: toBeBytes 8 len

/-- An unmasked server frame, as the server would send it. -/
def serverFrame (fin : Bool) (opcode : UInt8) (payload : Bytes) : Bytes :=
  ((if fin then 0x80 else 0) ||| opcode) :: lengthBytes payload.length ++ payload

/-- The opcodes that are not reserved. -/
def opcodes : List UInt8 := [opContinuation, opText, opBinary, opClose, opPing, opPong]

/-- The first byte of a frame says what it was made from. -/
theorem first_byte (fin : Bool) {opcode : UInt8} (h : opcode ∈ opcodes) :
    ((if fin then 0x80 else 0) ||| opcode) &&& 0x70 = 0 ∧
      decide (((if fin then 0x80 else 0) ||| opcode) &&& 0x80 ≠ 0) = fin ∧
      ((if fin then 0x80 else 0) ||| opcode) &&& 0x0F = opcode := by
  revert opcode
  cases fin <;> decide +kernel

/-- The length bytes of a payload are not masked, and declare the length. -/
theorem lengthBytes_spec {len : ℕ} (h : len ≤ A.isizeMax) :
    ∃ b1 tail, lengthBytes len = b1 :: tail ∧ b1 &&& 0x80 = 0 ∧ tail.length + 2 = headerTotal b1 ∧
      ∀ b0, declaredLen A b1 (b0 :: b1 :: tail) = some (.ok len) := by
  have husize : len ≤ A.usizeMax := by
    unfold Arch.isizeMax at h
    omega
  have hu64 := A.le_u64
  unfold lengthBytes
  by_cases h125 : len ≤ 125
  · rw [if_pos h125]
    have hbyte : ∀ n ≤ 125, UInt8.ofNat n &&& 0x80 = 0 ∧ len7 (UInt8.ofNat n) = n := by decide
    obtain ⟨hmask, hlen⟩ := hbyte len h125
    refine ⟨_, [], rfl, hmask, ?_, fun b0 => ?_⟩
    · simp only [headerTotal, hlen, List.length_nil]
      rw [if_neg (by omega), if_neg (by omega)]
    · simp only [declaredLen, hlen]
      rw [if_neg (by omega), if_neg (by omega)]
  · rw [if_neg h125]
    by_cases hu16 : len ≤ 0xFFFF
    · rw [if_pos hu16]
      refine ⟨126, toBeBytes 2 len, rfl, by decide, by simp [headerTotal, len7], fun b0 => ?_⟩
      have hvalue := fromBeBytes_toBeBytes (show len < 256 ^ 2 by omega)
      simp only [declaredLen, show len7 126 = 126 from rfl, if_true, List.drop_succ_cons,
        List.drop_zero]
      rw [List.take_of_length_le (by rw [length_toBeBytes]), hvalue]
    · rw [if_neg hu16]
      refine ⟨127, toBeBytes 8 len, rfl, by decide, by simp [headerTotal, len7], fun b0 => ?_⟩
      have hvalue := fromBeBytes_toBeBytes (show len < 256 ^ 8 by omega)
      have htake : (toBeBytes 8 len).take 8 = toBeBytes 8 len :=
        List.take_of_length_le (by rw [length_toBeBytes])
      unfold declaredLen
      rw [if_neg (show len7 127 ≠ 126 by decide), if_pos (show len7 127 = 127 from rfl)]
      simp only [List.drop_succ_cons, List.drop_zero, htake, length_toBeBytes, if_true, hvalue,
        if_pos husize]

/-- The header of a server frame is parsed to what the frame was made from. -/
theorem parseHead_serverFrame {fragments : Option Partial} {fin : Bool} {opcode : UInt8}
    {payload : Bytes} (hop : opcode ∈ opcodes) (hlen : payload.length ≤ A.isizeMax)
    (hcheck : checkFrame limits fragments fin opcode payload.length = .ok ()) (more : Bytes) :
    parseHead limits fragments (serverFrame fin opcode payload ++ more) =
      .ok (⟨fin, opcode, payload.length⟩, payload ++ more) := by
  obtain ⟨hreserved, hfin, hopcode⟩ := first_byte fin hop
  obtain ⟨b1, tail, hbytes, hmask, htotal, hdeclared⟩ := lengthBytes_spec hlen
  generalize hb0 : ((if fin then 0x80 else 0) ||| opcode : UInt8) = b0 at hreserved hfin hopcode
  have hsplit : serverFrame fin opcode payload ++ more = b0 :: b1 :: tail ++ (payload ++ more) := by
    simp only [serverFrame, hbytes, hb0, List.cons_append, List.append_assoc]
  have hstart : checkStart b0 b1 = .ok () := by
    simp only [checkStart, hreserved, hmask, ne_eq, not_true_eq_false, if_false]
  have hhead : headOf limits fragments b0 b1 (b0 :: b1 :: tail) =
      .ok ⟨fin, opcode, payload.length⟩ := by
    simp only [headOf, hdeclared b0, hfin, hopcode, hcheck]
    rw [if_neg (by omega)]
  rw [hsplit, parseHead_complete _ _ hstart htotal, hhead]
  rfl

/-- The frame that a server frame is decoded to. -/
theorem nextFrame_serverFrame {fragments : Option Partial} {fin : Bool} {opcode : UInt8}
    {payload : Bytes} (hop : opcode ∈ opcodes) (hlen : payload.length ≤ A.isizeMax)
    (hcheck : checkFrame limits fragments fin opcode payload.length = .ok ()) (more : Bytes) :
    nextFrame limits fragments (serverFrame fin opcode payload ++ more) =
      (dispatch A fragments fin opcode payload).step more := by
  rw [nextFrame_of_ok (parseHead_serverFrame hop hlen hcheck more), parseBody_complete rfl]

/-! ### What a server sends -/

/-- A control frame. -/
inductive Control
  | ping (payload : Bytes)
  | pong (payload : Bytes)
  | close (status : Option (UInt16 × String))

namespace Control

/-- The opcode of a control frame. -/
def opcode : Control → UInt8
  | ping _ => opPing
  | pong _ => opPong
  | close _ => opClose

/-- The payload of a control frame; a close carries a code and a reason, or nothing. -/
def payload : Control → Bytes
  | ping payload => payload
  | pong payload => payload
  | close none => []
  | close (some (code, reason)) => toBeBytes 2 code.toNat ++ asBytes reason

/-- What the client should see. -/
def frame : Control → Frame
  | ping payload => .ping payload
  | pong payload => .pong payload
  | close status => .close (status.map fun s => (s.1.toNat, s.2))

/-- A control frame as a server sends it. -/
def encode (c : Control) : Bytes := serverFrame true c.opcode c.payload

end Control

/-- The two kinds of messages. -/
inductive Kind
  | text
  | binary

/-- The opcode of the first fragment. -/
def Kind.opcode : Kind → UInt8
  | text => opText
  | binary => opBinary

/-- What the client should see of a message. -/
def Kind.frame : Kind → Bytes → Frame
  | text => .text
  | binary => .binary

/-- The bytes of the fragments that continue a message. -/
def tailData (rest : List (List Control × Bytes)) : Bytes := rest.flatMap Prod.snd

/-- A message: its first fragment, and the fragments that continue it, each with the control frames
sent before it.  Like any byte string of the target, it is at most `isize::MAX` bytes long. -/
structure Message (A : Arch) where
  kind : Kind
  first : Bytes
  rest : List (List Control × Bytes)
  length_le : first.length + (tailData rest).length ≤ A.isizeMax

/-- The frames that continue a message. -/
def encodeTail : List (List Control × Bytes) → Bytes
  | [] => []
  | (controls, fragment) :: rest =>
    controls.flatMap Control.encode ++
      (serverFrame rest.isEmpty opContinuation fragment ++ encodeTail rest)

namespace Message

/-- A message as a server sends it, in its fragments. -/
def encode (m : Message A) : Bytes :=
  serverFrame m.rest.isEmpty m.kind.opcode m.first ++ encodeTail m.rest

/-- The control frames, and then the whole message in the place of its last fragment. -/
def frames (m : Message A) : List Frame :=
  (m.rest.flatMap Prod.fst).map Control.frame ++ [m.kind.frame (m.first ++ tailData m.rest)]

end Message

/-- What a server sends. -/
inductive Item (A : Arch)
  | message (m : Message A)
  | control (c : Control)

/-- The bytes of an item. -/
def Item.encode : Item A → Bytes
  | .message m => m.encode
  | .control c => c.encode

/-- The frames that a client is to be given for an item. -/
def Item.frames : Item A → List Frame
  | .message m => m.frames
  | .control c => [c.frame]

/-- The bytes of a session. -/
def encodeItems (items : List (Item A)) : Bytes := items.flatMap Item.encode

/-- The frames of a session. -/
def itemFrames (items : List (Item A)) : List Frame := items.flatMap Item.frames

/-- A control frame has at most 125 bytes of payload. -/
def Control.Fits (c : Control) : Prop := c.payload.length ≤ maxControlPayload

/-- Every fragment is within the limit for frames, and a fragmented message within the limit for
messages. -/
structure Message.Fits (limits : Limits A) (m : Message A) : Prop where
  first : m.first.length ≤ limits.maxFrameSize
  rest : ∀ r ∈ m.rest, (∀ c ∈ r.1, c.Fits) ∧ r.2.length ≤ limits.maxFrameSize
  message : m.rest ≠ [] → m.first.length + (tailData m.rest).length ≤ limits.maxMessageSize

/-- The item is inside the limits of the client. -/
def Item.Fits (limits : Limits A) : Item A → Prop
  | .message m => m.Fits limits
  | .control c => c.Fits

/-! ### Decoding what a server sends -/

/-- Decoding `bytes` gives the frames `out` and goes on with `bytes'`. -/
def Yields (limits : Limits A) (fragments : Option Partial) (bytes : Bytes) (out : List Frame)
    (fragments' : Option Partial) (bytes' : Bytes) : Prop :=
  decode limits fragments bytes =
    (out ++ (decode limits fragments' bytes').1, (decode limits fragments' bytes').2)

variable {fragments fragments' fragments'' : Option Partial} {bytes bytes' bytes'' : Bytes}
  {out out' : List Frame}

theorem Yields.refl : Yields limits fragments bytes [] fragments bytes := rfl

theorem Yields.trans (h : Yields limits fragments bytes out fragments' bytes')
    (h' : Yields limits fragments' bytes' out' fragments'' bytes'') :
    Yields limits fragments bytes (out ++ out') fragments'' bytes'' := by
  unfold Yields at *
  rw [h, h', List.append_assoc]

theorem parseClose_payload (status : Option (UInt16 × String)) :
    parseClose (Control.close status).payload = .ok (status.map fun s => (s.1.toNat, s.2)) := by
  cases status with
  | none => rfl
  | some s =>
    obtain ⟨code, reason⟩ := s
    have hbytes : toBeBytes 2 code.toNat =
        [UInt8.ofNat (code.toNat / 256), UInt8.ofNat code.toNat] := rfl
    have hcode := fromBeBytes_toBeBytes (show code.toNat < 256 ^ 2 from code.toNat_lt)
    rw [hbytes] at hcode
    simp only [Control.payload, hbytes, List.cons_append, List.nil_append, parseClose,
      fromUtf8_asBytes, hcode, Option.map_some]

namespace Control

theorem opcode_mem (c : Control) : c.opcode ∈ opcodes := by
  cases c <;> simp [opcode, opcodes]

theorem checkFrame_ok (limits : Limits A) {c : Control} (h : c.Fits)
    (fragments : Option Partial) :
    checkFrame limits fragments true c.opcode c.payload.length = .ok () := by
  have hcontrol : c.opcode = opClose ∨ c.opcode = opPing ∨ c.opcode = opPong := by
    cases c <;> simp [opcode]
  unfold checkFrame
  rw [if_pos hcontrol, if_neg (by decide), if_neg (not_lt.mpr h)]

theorem dispatch_eq (c : Control) (fragments : Option Partial) :
    dispatch A fragments true c.opcode c.payload = .frame c.frame fragments := by
  cases c with
  | ping payload => rfl
  | pong payload => rfl
  | close status =>
    unfold dispatch
    rw [if_neg (by simp only [opcode]; decide), if_neg (by simp only [opcode]; decide), if_pos rfl,
      parseClose_payload]
    rfl

/-- A control frame is seen at once, and does not touch the message in progress. -/
theorem yields {c : Control} (h : c.Fits) (fragments : Option Partial) (more : Bytes) :
    Yields limits fragments (c.encode ++ more) [c.frame] fragments more := by
  have hnext := nextFrame_serverFrame c.opcode_mem (le_trans h (maxControlPayload_le A))
    (checkFrame_ok limits h fragments) more
  rw [dispatch_eq] at hnext
  exact decode_more hnext

end Control

theorem controls_yield {controls : List Control} (h : ∀ c ∈ controls, c.Fits)
    (fragments : Option Partial) (more : Bytes) :
    Yields limits fragments (controls.flatMap Control.encode ++ more)
      (controls.map Control.frame) fragments more := by
  induction controls with
  | nil => exact .refl
  | cons c controls ih =>
    rw [List.flatMap_cons, List.append_assoc]
    exact (Control.yields (h c List.mem_cons_self) _ _).trans
      (ih fun c hc => h c (List.mem_cons_of_mem _ hc))

/-- A fragment that continues a message. -/
theorem continuation_yields {opcode : UInt8} {buf fragment : Bytes} (fin : Bool)
    (hframe : fragment.length ≤ limits.maxFrameSize)
    (hmessage : buf.length + fragment.length ≤ limits.maxMessageSize)
    (hsize : buf.length + fragment.length ≤ A.isizeMax) (more : Bytes) :
    Yields limits (some ⟨opcode, buf⟩) (serverFrame fin opContinuation fragment ++ more)
      (if fin then [messageFrame opcode (buf ++ fragment)] else [])
      (if fin then none else some ⟨opcode, buf ++ fragment⟩) more := by
  have hcheck : checkFrame limits (some ⟨opcode, buf⟩) fin opContinuation fragment.length =
      .ok () := by
    have hsum : ¬saturatingAdd A buf.length fragment.length > limits.maxMessageSize := by
      unfold saturatingAdd
      omega
    unfold checkFrame
    rw [if_neg (by decide), if_pos rfl]
    simp only [if_neg hsum]
    rw [if_neg (by omega)]
  have hdispatch : dispatch A (some ⟨opcode, buf⟩) fin opContinuation fragment = if fin then
      .frame (messageFrame opcode (buf ++ fragment)) none else
      .folded (some ⟨opcode, buf ++ fragment⟩) := by
    unfold dispatch
    rw [if_neg (by decide), if_neg (by decide), if_neg (by decide), if_pos rfl]
    simp only [List.length_append]
    rw [if_neg (by omega)]
  have hnext := nextFrame_serverFrame (by decide) (le_trans (Nat.le_add_left _ _) hsize) hcheck more
  rw [hdispatch] at hnext
  cases fin with
  | true => exact decode_more hnext
  | false => exact decode_more hnext

/-- The fragments that continue a message, with the control frames between them. -/
theorem tail_yields (opcode : UInt8) (buf : Bytes) {rest : List (List Control × Bytes)}
    (hne : rest ≠ [])
    (hrest : ∀ r ∈ rest, (∀ c ∈ r.1, c.Fits) ∧ r.2.length ≤ limits.maxFrameSize)
    (hmessage : buf.length + (tailData rest).length ≤ limits.maxMessageSize)
    (hsize : buf.length + (tailData rest).length ≤ A.isizeMax) (more : Bytes) :
    Yields limits (some ⟨opcode, buf⟩) (encodeTail rest ++ more)
      ((rest.flatMap Prod.fst).map Control.frame ++
        [messageFrame opcode (buf ++ tailData rest)]) none more := by
  induction rest generalizing buf with
  | nil => exact (hne rfl).elim
  | cons r rest ih =>
    obtain ⟨controls, fragment⟩ := r
    obtain ⟨hcontrols, hframe⟩ := hrest _ List.mem_cons_self
    simp only at hcontrols hframe
    have hdata : tailData ((controls, fragment) :: rest) = fragment ++ tailData rest := by
      simp only [tailData, List.flatMap_cons]
    rw [hdata, List.length_append] at hmessage hsize
    have hfirst := (controls_yield hcontrols (some ⟨opcode, buf⟩)
      (serverFrame rest.isEmpty opContinuation fragment ++ (encodeTail rest ++ more))).trans
      (continuation_yields rest.isEmpty hframe (by omega) (by omega) (encodeTail rest ++ more))
    simp only [encodeTail, List.append_assoc, List.flatMap_cons, List.map_append, hdata]
    by_cases hnil : rest = []
    · subst hnil
      simpa [tailData, encodeTail] using hfirst
    · have hempty : rest.isEmpty = false := by simpa using hnil
      rw [hempty] at hfirst ⊢
      have hnext := ih (buf ++ fragment) hnil (fun r hr => hrest r (List.mem_cons_of_mem _ hr))
        (by rw [List.length_append]; omega) (by rw [List.length_append]; omega)
      have hall := hfirst.trans hnext
      simpa only [Bool.false_eq_true, if_false, List.append_nil, List.append_assoc] using hall

theorem Kind.messageFrame_eq (kind : Kind) (data : Bytes) :
    messageFrame kind.opcode data = kind.frame data := by
  cases kind <;> rfl

theorem Kind.opcode_mem (kind : Kind) : kind.opcode ∈ opcodes := by
  cases kind <;> decide

/-- The first fragment of a message, or the whole of it. -/
theorem first_yields (kind : Kind) {first : Bytes} (fin : Bool)
    (hframe : first.length ≤ limits.maxFrameSize)
    (hmessage : fin = false → first.length ≤ limits.maxMessageSize)
    (hsize : first.length ≤ A.isizeMax) (more : Bytes) :
    Yields limits none (serverFrame fin kind.opcode first ++ more)
      (if fin then [kind.frame first] else [])
      (if fin then none else some ⟨kind.opcode, first⟩) more := by
  have hcheck : checkFrame limits none fin kind.opcode first.length = .ok () := by
    unfold checkFrame
    rw [if_neg (by cases kind <;> decide), if_neg (by cases kind <;> decide),
      if_pos (by cases kind <;> decide), if_neg (by decide), if_neg (by omega)]
    refine if_neg fun ⟨hfin, hlt⟩ => ?_
    have := hmessage (by simpa using hfin)
    omega
  have hdispatch : dispatch A none fin kind.opcode first =
      if fin then .frame (kind.frame first) none else .folded (some ⟨kind.opcode, first⟩) := by
    unfold dispatch
    rw [if_neg (by cases kind <;> decide), if_neg (by cases kind <;> decide),
      if_neg (by cases kind <;> decide), if_neg (by cases kind <;> decide),
      if_pos (by cases kind <;> decide), Kind.messageFrame_eq]
  have hnext := nextFrame_serverFrame kind.opcode_mem hsize hcheck more
  rw [hdispatch] at hnext
  cases fin with
  | true => exact decode_more hnext
  | false => exact decode_more hnext

theorem Message.yields {m : Message A} (h : m.Fits limits) (more : Bytes) :
    Yields limits none (m.encode ++ more) m.frames none more := by
  have hsize := m.length_le
  unfold Message.encode Message.frames
  rw [List.append_assoc]
  by_cases hnil : m.rest = []
  · have hfirst := first_yields m.kind true h.first nofun (by omega) more
    simpa [hnil, tailData, encodeTail] using hfirst
  · have hempty : m.rest.isEmpty = false := by simpa using hnil
    have hmessage := h.message hnil
    have hfirst := first_yields m.kind false h.first (fun _ => by omega) (by omega)
      (encodeTail m.rest ++ more)
    have htail := tail_yields m.kind.opcode m.first hnil h.rest hmessage hsize more
    rw [Kind.messageFrame_eq] at htail
    rw [hempty]
    exact hfirst.trans htail

theorem items_yield {items : List (Item A)} (h : ∀ item ∈ items, item.Fits limits) :
    Yields limits none (encodeItems items) (itemFrames items) none [] := by
  induction items with
  | nil => exact .refl
  | cons item items ih =>
    have hitem := h item List.mem_cons_self
    have hrest := ih fun item hmem => h item (List.mem_cons_of_mem _ hmem)
    cases item with
    | message m => exact (Message.yields hitem _).trans hrest
    | control c => exact (Control.yields hitem _ _).trans hrest

/-- The items are decoded to their frames, and nothing is left over. -/
theorem decode_encodeItems {items : List (Item A)} (h : ∀ item ∈ items, item.Fits limits) :
    decode limits none (encodeItems items) =
      (itemFrames items, ⟨some (.io connectionClosed), none, []⟩) := by
  have hend : decode limits none [] = ([], ⟨some (.io connectionClosed), none, []⟩) :=
    decode_stop (nextFrame_of_error rfl)
  have hyields := items_yield h
  unfold Yields at hyields
  rw [hyields, hend, List.append_nil]

/-- A client that has just been connected, with the frames of a list of items still to read, sees
their control frames and messages in order and then the end of the stream, and is left with no
partial message and no buffered header. -/
theorem readFrame_undoes_framing {C : Crypto} {endpoint : Endpoint} {socket : WsSocket}
    {s : WsClient A} (hconnect : connect C endpoint limits socket = .ok s)
    {items : List (Item A)} (hfits : ∀ item ∈ items, item.Fits limits)
    (hpolite : Polite s.source.stream.inbound) (hrest : s.source.rest = encodeItems items)
    (calls : ℕ) (hcalls : 2 * s.source.size < calls) :
    ∃ s', drain calls s = (itemFrames items, some (.io connectionClosed), s') ∧
      s'.fragments = none ∧ s'.headerLen = 0 ∧ s'.incoming = none := by
  have hup := connect_eq_ok hconnect
  have hdrain := drain_spec calls hup.safe hup.fresh.stands hpolite (Or.inr ⟨hup.fresh, hcalls⟩)
  rw [hup.limits, hup.fragments, hrest, decode_encodeItems hfits] at hdrain
  obtain ⟨hfresh, hfragments⟩ := hdrain.atEnd rfl
  refine ⟨(drain calls s).2.2, ?_, hfragments, hfresh.headerLen, hfresh.incoming⟩
  exact Prod.ext hdrain.frames (Prod.ext hdrain.failure rfl)

/-- A text message in two fragments with a ping in between, and a close frame. -/
def sampleItems : List (Item esp32) :=
  [.message ⟨.text, [72, 101], [([.ping [1]], [108, 108, 111])], by decide⟩,
    .control (.close (some (1000, "bye")))]

theorem sampleItems_read : ∃ s s', connect rfcCrypto testEndpoint testLimits
      { inbound := [.data (rfcResponse ++ encodeItems sampleItems)] } = .ok s ∧
    drain 1000 s = ([.ping [1], .text [72, 101, 108, 108, 111], .close (some (1000, "bye"))],
      some (.io connectionClosed), s') ∧ s'.fragments = none := by
  have hlength : rfcResponse.length = 129 := by decide +kernel
  have hfits : ∀ item ∈ sampleItems, item.Fits testLimits := by
    intro item hitem
    rcases List.mem_cons.mp hitem with rfl | hitem
    · refine ⟨by decide, fun r hr => ?_, by decide⟩
      cases List.mem_singleton.mp hr
      refine ⟨fun c hc => ?_, by decide⟩
      cases List.mem_singleton.mp hc
      unfold Control.Fits
      decide
    · cases List.mem_singleton.mp hitem
      show Control.Fits _
      unfold Control.Fits
      decide +kernel
  obtain ⟨s, hs, hconnected⟩ := rfcResponse_connects (encodeItems sampleItems)
    (polite_data _ (rfcResponse_block _).ne_nil) (inTime_data _) (List.append_nil _)
  have hcalls : 2 * s.source.size < 1000 := by
    have hsize := hconnected.size
    have hencoded : (encodeItems sampleItems).length < 100 := by decide +kernel
    simp [Script.size, hlength] at hsize
    omega
  obtain ⟨s', hdrain, hend, -⟩ :=
    readFrame_undoes_framing hs hfits hconnected.polite hconnected.rest 1000 hcalls
  exact ⟨s, s', hs, hdrain, hend⟩

end WhatsappEsp32.Ws
