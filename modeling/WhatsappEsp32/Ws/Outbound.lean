import WhatsappEsp32.Lib.Sink
import WhatsappEsp32.Ws.Framing
import WhatsappEsp32.Ws.Handshake

/-!
# Outbound frames

`send_binary`, `send_pong` and `send_close` over a writer that accepts as many bytes at a time as it
likes.  On the other side stands a server that reads frames as RFC 6455 lays them out (§5.2), and
that fails on what a client must not send.

* `sendFrame`: the header buffer, and the payload masked in blocks;
* `clientFrame`, `sendFrame_spec`: the bytes that are put on the wire;
* `parseFrame`, `serverParse`: the server;
* `sent_frames_parse`: the server recovers what was sent.
-/

namespace WhatsappEsp32.Ws

open CrashLogic RustIo Sink

/-! ### Sending a frame -/

/-- The four bytes that `fill_random` gives for a frame. -/
abbrev Mask := Fin 4 → UInt8

/-- The four bytes of a mask. -/
def Mask.bytes (mask : Mask) : Bytes := [mask 0, mask 1, mask 2, mask 3]

/-- How many bytes are masked at a time. -/
def maskChunk : ℕ := 256

/-- `slice::chunks`. -/
def chunks (n : ℕ) (payload : Bytes) : List Bytes :=
  (List.range ((payload.length + n - 1) / n)).map fun i => (payload.drop (i * n)).take n

/-- The header buffer, and how much of it is used. -/
def frameHeader (opcode : UInt8) (len : ℕ) (mask : Mask) : Bytes × ℕ :=
  let header := (List.replicate 14 0).set 0 (0x80 ||| opcode)
  let (header, n) :=
    if len ≤ 125 then
      (header.set 1 (0x80 ||| UInt8.ofNat len), 2)
    else if len ≤ 0xFFFF then
      (writeAt (header.set 1 (0x80 ||| 126)) 2 (toBeBytes 2 len), 4)
    else
      (writeAt (header.set 1 (0x80 ||| 127)) 2 (toBeBytes 8 len), 10)
  (writeAt header n mask.bytes, n + 4)

/-- Mask a block into the stack buffer. -/
def maskBlock (mask : Mask) (base : ℕ) (block chunk : Bytes) : Bytes :=
  block.zipIdx.foldl
    (fun chunk bj => chunk.set bj.2 (bj.1 ^^^ mask (Fin.ofNat 4 ((base + bj.2) &&& 3)))) chunk

/-- Mask and write one block after the other; the stack buffer is used again. -/
def sendBlocks (mask : Mask) : List (Bytes × ℕ) → Bytes → Prog Sink IoError Unit
  | [], _ => pure ()
  | (block, i) :: rest, chunk => do
    let chunk := maskBlock mask (i * maskChunk) block chunk
    writeAll (chunk.take block.length)
    sendBlocks mask rest chunk

/-- `send_frame`: the header, and then the payload in masked blocks. -/
def sendFrame (mask : Mask) (opcode : UInt8) (payload : Bytes) : Prog Sink IoError Unit :=
  if opClose ≤ opcode ∧ maxControlPayload < payload.length then
    .throw (protocolError "control frame payload over 125 bytes")
  else do
    let (header, n) := frameHeader opcode payload.length mask
    writeAll (header.take n)
    sendBlocks mask (chunks maskChunk payload).zipIdx (List.replicate maskChunk 0)
    flush

/-- `send_binary`. -/
def sendBinary (mask : Mask) (payload : Bytes) : Prog Sink IoError Unit :=
  sendFrame mask opBinary payload

/-- `send_pong`. -/
def sendPong (mask : Mask) (payload : Bytes) : Prog Sink IoError Unit :=
  sendFrame mask opPong payload

/-- Send a close frame with `code` and no reason. -/
def sendClose (mask : Mask) (code : UInt16) : Prog Sink IoError Unit :=
  sendFrame mask opClose (toBeBytes 2 code.toNat)

/-! ### What is put on the wire -/

/-- §5.3: byte `i` of the payload with byte `i mod 4` of the key. -/
def applyMask (mask : Mask) (payload : Bytes) : Bytes :=
  payload.mapIdx fun i b => b ^^^ mask (Fin.ofNat 4 i)

/-- The length of a payload in its shortest form, with the mask bit set. -/
def maskedLength (len : ℕ) : Bytes :=
  if len ≤ 125 then
    [0x80 ||| UInt8.ofNat len]
  else if len ≤ 0xFFFF then
    (0x80 ||| 126) :: toBeBytes 2 len
  else
    (0x80 ||| 127) :: toBeBytes 8 len

/-- A masked frame with FIN set. -/
def clientFrame (mask : Mask) (opcode : UInt8) (payload : Bytes) : Bytes :=
  (0x80 ||| opcode) :: maskedLength payload.length ++ mask.bytes ++ applyMask mask payload

@[simp] theorem length_applyMask (mask : Mask) (payload : Bytes) :
    (applyMask mask payload).length = payload.length := by
  simp [applyMask]

/-- Masking twice gives the payload back. -/
@[simp] theorem applyMask_applyMask (mask : Mask) (payload : Bytes) :
    applyMask mask (applyMask mask payload) = payload := by
  unfold applyMask
  rw [List.mapIdx_mapIdx]
  refine List.ext_getElem (by simp) fun i h h' => ?_
  rw [List.getElem_mapIdx]
  simp only [Function.comp_apply, UInt8.xor_assoc, UInt8.xor_self, UInt8.xor_zero]

/-- The part of the header buffer that is used. -/
theorem take_frameHeader (opcode : UInt8) (len : ℕ) (mask : Mask) :
    (frameHeader opcode len mask).1.take (frameHeader opcode len mask).2 =
      (0x80 ||| opcode) :: maskedLength len ++ mask.bytes := by
  unfold frameHeader maskedLength
  by_cases h125 : len ≤ 125
  · simp [h125, writeAt, Mask.bytes]
  · by_cases hu16 : len ≤ 0xFFFF
    · simp [h125, hu16, writeAt, Mask.bytes, toBeBytes]
    · simp [h125, hu16, writeAt, Mask.bytes, toBeBytes]

/-- The elements of a buffer are set one after the other. -/
theorem foldl_set (f : ℕ → UInt8 → UInt8) (block : Bytes) {chunk : Bytes}
    (h : block.length ≤ chunk.length) :
    block.zipIdx.foldl (fun chunk bj => chunk.set bj.2 (f bj.2 bj.1)) chunk =
      block.mapIdx f ++ chunk.drop block.length := by
  induction block using List.reverseRecOn with
  | nil => rfl
  | append_singleton block b ih =>
    rw [List.length_append, List.length_singleton] at h
    rw [List.zipIdx_append, List.foldl_append, ih (by omega), List.mapIdx_append]
    have hdrop : chunk.drop block.length =
        chunk.get ⟨block.length, by omega⟩ :: chunk.drop (block.length + 1) :=
      List.drop_eq_getElem_cons (by omega)
    have hlength : (block.mapIdx f).length ≤ block.length := by simp
    simp only [List.zipIdx_cons, List.zipIdx_nil, List.foldl_cons, List.foldl_nil, Nat.zero_add]
    rw [List.set_append_right _ _ hlength, List.length_mapIdx, Nat.sub_self, hdrop,
      List.set_cons_zero]
    simp

/-- A block of at most the length of the buffer is masked from its place in the payload on. -/
theorem take_maskBlock (mask : Mask) (base : ℕ) {block chunk : Bytes}
    (h : block.length ≤ chunk.length) :
    (maskBlock mask base block chunk).take block.length =
        block.mapIdx (fun j b => b ^^^ mask (Fin.ofNat 4 (base + j))) ∧
      (maskBlock mask base block chunk).length = chunk.length := by
  have hand : ∀ n : ℕ, Fin.ofNat 4 (n &&& 3) = Fin.ofNat 4 n := by
    intro n
    have hmod : n &&& 3 = n % 4 := Nat.and_two_pow_sub_one_eq_mod n 2
    apply Fin.ext
    simp [Fin.ofNat, hmod]
  have hfold := foldl_set (fun j b => b ^^^ mask (Fin.ofNat 4 ((base + j) &&& 3))) block h
  unfold maskBlock
  rw [hfold]
  constructor
  · rw [List.take_left' (by simp)]
    simp only [hand]
  · simp
    omega

/-- The first blocks of a payload are its beginning. -/
theorem flatMap_chunks (n k : ℕ) (payload : Bytes) :
    (List.range k).flatMap (fun i => (payload.drop (i * n)).take n) = payload.take (k * n) := by
  induction k with
  | zero => simp
  | succ k ih =>
    rw [List.range_succ, List.flatMap_append, ih, Nat.succ_mul, List.take_add]
    simp

/-- The blocks, each masked from its place in the payload on, are the masked payload. -/
theorem flatMap_masked (mask : Mask) {n : ℕ} (hn : 0 < n) (payload : Bytes) :
    (chunks n payload).zipIdx.flatMap
        (fun bi => bi.1.mapIdx fun j b => b ^^^ mask (Fin.ofNat 4 (bi.2 * n + j))) =
      applyMask mask payload := by
  have hzip : (chunks n payload).zipIdx =
      (List.range ((payload.length + n - 1) / n)).map
        fun i => ((payload.drop (i * n)).take n, i) := by
    refine List.ext_getElem (by simp [chunks]) fun i h h' => ?_
    simp [chunks]
  have hblock : ∀ i, ((payload.drop (i * n)).take n).mapIdx
      (fun j b => b ^^^ mask (Fin.ofNat 4 (i * n + j))) =
      ((applyMask mask payload).drop (i * n)).take n := by
    intro i
    refine List.ext_getElem (by simp) fun j h h' => ?_
    simp [applyMask]
  have hall : payload.length ≤ (payload.length + n - 1) / n * n := by
    have hdiv := Nat.div_add_mod (payload.length + n - 1) n
    have hmod := Nat.mod_lt (payload.length + n - 1) hn
    rw [Nat.mul_comm] at hdiv
    omega
  rw [hzip, List.flatMap_map]
  simp only [hblock]
  rw [flatMap_chunks, List.take_of_length_le (by rw [length_applyMask]; exact hall)]

/-- Every block fits into the stack buffer. -/
theorem length_of_mem_chunks {n : ℕ} {payload : Bytes} {bi : Bytes × ℕ}
    (h : bi ∈ (chunks n payload).zipIdx) : bi.1.length ≤ n := by
  have hmem : bi.1 ∈ chunks n payload := by
    rw [← List.zipIdx_map_fst 0 (chunks n payload)]
    exact List.mem_map_of_mem h
  obtain ⟨i, -, hi⟩ := List.mem_map.mp hmem
  rw [← hi, List.length_take]
  exact min_le_left _ _

/-- The blocks are put on the wire masked, up to the one that fails. -/
theorem sendBlocks_spec (mask : Mask) (blocks : List (Bytes × ℕ)) {chunk : Bytes}
    (hblocks : ∀ bi ∈ blocks, bi.1.length ≤ chunk.length) (s : Sink) :
    Triple (fun t => t = s) (sendBlocks mask blocks chunk)
      (fun _ s' => s.Puts (blocks.flatMap fun bi =>
        bi.1.mapIdx fun j b => b ^^^ mask (Fin.ofNat 4 (bi.2 * maskChunk + j))) s')
      (fun _ s' => s.PutsPart (blocks.flatMap fun bi =>
        bi.1.mapIdx fun j b => b ^^^ mask (Fin.ofNat 4 (bi.2 * maskChunk + j))) s')
      (fun _ => False) := by
  induction blocks generalizing chunk s with
  | nil => exact Triple.ofRun (Puts.refl s)
  | cons bi rest ih =>
    obtain ⟨block, i⟩ := bi
    have hblock : block.length ≤ chunk.length := hblocks (block, i) List.mem_cons_self
    obtain ⟨htake, hlength⟩ := take_maskBlock mask (i * maskChunk) hblock
    simp only [List.flatMap_cons, sendBlocks, htake]
    refine Triple.bind ((writeAll_spec _ s).weaken (fun _ => id) (fun _ _ => id)
      (fun _ s' h => h.extend _) (fun _ => id)) fun _ => Triple.ofState fun s' hputs => ?_
    refine (ih (fun bi hbi => ?_) s').weaken (fun _ => id) (fun _ s'' h => hputs.trans h)
      (fun _ s'' h => h.prepend hputs) (fun _ => id)
    rw [hlength]
    exact hblocks bi (List.mem_cons_of_mem _ hbi)

/-- A control frame is not too long. -/
def Permitted (opcode : UInt8) (payload : Bytes) : Prop :=
  opClose ≤ opcode → payload.length ≤ maxControlPayload

/-- A call that succeeds puts one whole frame on the wire.  One that fails puts a part of it, or
only fails to flush it. -/
theorem sendFrame_spec (mask : Mask) (opcode : UInt8) (payload : Bytes) (s : Sink) :
    Triple (fun t => t = s) (sendFrame mask opcode payload)
      (fun _ s' => s.Puts (clientFrame mask opcode payload) s' ∧ Permitted opcode payload)
      (fun _ s' => s' = s ∨ Permitted opcode payload ∧
        (s.PutsPart (clientFrame mask opcode payload) s' ∨
          s.Puts (clientFrame mask opcode payload) s')) (fun _ => False) := by
  refine Triple.ite (fun _ => ?_) fun hcontrol => ?_
  · exact Triple.ofRun (Or.inl rfl)
  · have hcontrol' : Permitted opcode payload :=
      fun h => not_lt.mp fun hlt => hcontrol ⟨h, hlt⟩
    have hblocks : ∀ bi ∈ (chunks maskChunk payload).zipIdx,
        bi.1.length ≤ (List.replicate maskChunk (0 : UInt8)).length := by
      intro bi hbi
      rw [List.length_replicate]
      exact length_of_mem_chunks hbi
    unfold clientFrame
    simp only [take_frameHeader]
    refine Triple.bind ((writeAll_spec _ s).weaken (fun _ => id) (fun _ _ => id)
      (fun _ s' h => Or.inr ⟨hcontrol', Or.inl (h.extend _)⟩) (fun _ => id)) fun _ =>
      Triple.ofState fun s' hhead => ?_
    have hbody := sendBlocks_spec mask (chunks maskChunk payload).zipIdx hblocks s'
    rw [flatMap_masked mask (by decide) payload] at hbody
    refine Triple.bind (hbody.weaken (fun _ => id) (fun _ _ => id)
      (fun _ s'' h => Or.inr ⟨hcontrol', Or.inl (h.prepend hhead)⟩) (fun _ => id)) fun _ =>
      Triple.ofState fun s'' htail => ?_
    have hframe := hhead.trans htail
    refine (flush_spec s'').weaken (fun _ => id) (fun _ s₃ h => ⟨?_, hcontrol'⟩)
      (fun _ s₃ h => Or.inr ⟨hcontrol', Or.inr ?_⟩) (fun _ => id)
    · simpa using hframe.trans h
    · simpa using hframe.trans h

/-! ### A server -/

/-- The three forms of a length. -/
inductive LengthForm
  | seven
  | sixteen
  | sixtyFour
  deriving DecidableEq

namespace LengthForm

instance : Fintype LengthForm :=
  ⟨{seven, sixteen, sixtyFour}, fun form => by cases form <;> decide⟩

/-- The bytes of the length after the first two of the header. -/
def extended : LengthForm → ℕ
  | seven => 0
  | sixteen => 2
  | sixtyFour => 8

/-- The longest payload that can be declared; the first bit of the longest form is not used. -/
def capacity : LengthForm → ℕ
  | seven => 125
  | sixteen => 2 ^ 16 - 1
  | sixtyFour => 2 ^ 63 - 1

/-- The form that a header uses. -/
def ofByte (b1 : UInt8) : LengthForm :=
  if len7 b1 = 126 then sixteen else if len7 b1 = 127 then sixtyFour else seven

/-- The length fits this form and none that is shorter. -/
def IsMinimal (form : LengthForm) (len : ℕ) : Prop :=
  len ≤ form.capacity ∧ ∀ other : LengthForm, len ≤ other.capacity → form.extended ≤ other.extended

instance (form : LengthForm) (len : ℕ) : Decidable (form.IsMinimal len) :=
  inferInstanceAs (Decidable (_ ∧ _))

end LengthForm

/-- A frame as a server reads it, with the key it was masked with. -/
structure ClientFrame where
  fin : Bool
  rsv : UInt8
  opcode : UInt8
  masked : Bool
  form : LengthForm
  key : Mask
  payload : Bytes

/-- What a server must fail on otherwise: reserved bits and opcodes, a missing mask, a length that
is not minimal, and a control frame that is fragmented or too long. -/
structure ClientFrame.Valid (f : ClientFrame) : Prop where
  rsv : f.rsv = 0
  opcode : f.opcode ∈ opcodes
  masked : f.masked = true
  form : f.form.IsMinimal f.payload.length
  control : opClose ≤ f.opcode → f.fin = true ∧ f.payload.length ≤ maxControlPayload

instance (f : ClientFrame) : Decidable f.Valid :=
  decidable_of_iff (f.rsv = 0 ∧ f.opcode ∈ opcodes ∧ f.masked = true ∧
      f.form.IsMinimal f.payload.length ∧
      (opClose ≤ f.opcode → f.fin = true ∧ f.payload.length ≤ maxControlPayload))
    ⟨fun ⟨h, h', h₂, h₃, h₄⟩ => ⟨h, h', h₂, h₃, h₄⟩,
      fun h => ⟨h.rsv, h.opcode, h.masked, h.form, h.control⟩⟩

/-- The declared length of a payload. -/
def clientLength (b1 : UInt8) (rest : Bytes) : ℕ :=
  match LengthForm.ofByte b1 with
  | .seven => len7 b1
  | form => fromBeBytes (rest.take form.extended)

/-- §5.2: read one frame, and unmask it. -/
def parseFrame : Bytes → Option (ClientFrame × Bytes)
  | b0 :: b1 :: rest =>
    let form := LengthForm.ofByte b1
    let len := clientLength b1 rest
    match rest.drop form.extended with
    | k0 :: k1 :: k2 :: k3 :: body =>
      let key : Mask := ![k0, k1, k2, k3]
      let frame : ClientFrame :=
        { fin := decide (b0 &&& 0x80 ≠ 0)
          rsv := b0 &&& 0x70
          opcode := b0 &&& 0x0F
          masked := decide (b1 &&& 0x80 ≠ 0)
          form := form
          key := key
          payload := applyMask key (body.take len) }
      if len ≤ body.length ∧ frame.Valid then some (frame, body.drop len) else none
    | _ => none
  | _ => none

/-- Read frames up to the end of the bytes. -/
def parseFrames : ℕ → Bytes → Option (List ClientFrame)
  | _, [] => some []
  | 0, _ :: _ => none
  | fuel + 1, b :: bytes => do
    let (frame, rest) ← parseFrame (b :: bytes)
    let frames ← parseFrames fuel rest
    pure (frame :: frames)

/-- All frames of a stream; `none` if a frame is not valid or not complete. -/
def serverParse (bytes : Bytes) : Option (List ClientFrame) := parseFrames bytes.length bytes

/-- The shortest form of a length. -/
def shortestForm (len : ℕ) : LengthForm :=
  if len ≤ 125 then .seven else if len ≤ 0xFFFF then .sixteen else .sixtyFour

theorem shortestForm_isMinimal {len : ℕ} (h : len < 2 ^ 63) :
    (shortestForm len).IsMinimal len := by
  unfold shortestForm
  by_cases h125 : len ≤ 125
  · rw [if_pos h125]
    exact ⟨h125, fun other _ => Nat.zero_le _⟩
  · rw [if_neg h125]
    by_cases hu16 : len ≤ 0xFFFF
    · rw [if_pos hu16]
      refine ⟨hu16, fun other hother => ?_⟩
      cases other with
      | seven => exact absurd hother h125
      | sixteen => exact le_rfl
      | sixtyFour => decide
    · rw [if_neg hu16]
      refine ⟨Nat.le_sub_one_of_lt h, fun other hother => ?_⟩
      cases other with
      | seven => exact absurd hother h125
      | sixteen => exact absurd hother hu16
      | sixtyFour => exact le_rfl

/-- The bytes of a masked length declare it, in the shortest form. -/
theorem maskedLength_spec {len : ℕ} (h : len < 2 ^ 63) :
    ∃ b1 tail, maskedLength len = b1 :: tail ∧ b1 &&& 0x80 ≠ 0 ∧
      LengthForm.ofByte b1 = shortestForm len ∧ tail.length = (shortestForm len).extended ∧
      ∀ more, clientLength b1 (tail ++ more) = len := by
  unfold maskedLength shortestForm
  by_cases h125 : len ≤ 125
  · have hbyte : ∀ n ≤ 125, (0x80 ||| UInt8.ofNat n) &&& 0x80 ≠ 0 ∧
        len7 (0x80 ||| UInt8.ofNat n) = n := by decide
    obtain ⟨hmask, hlen⟩ := hbyte len h125
    have hform : LengthForm.ofByte (0x80 ||| UInt8.ofNat len) = .seven := by
      unfold LengthForm.ofByte
      rw [hlen, if_neg (by omega), if_neg (by omega)]
    rw [if_pos h125, if_pos h125]
    refine ⟨_, [], rfl, hmask, hform, rfl, fun more => ?_⟩
    unfold clientLength
    rw [hform]
    exact hlen
  · rw [if_neg h125, if_neg h125]
    by_cases hu16 : len ≤ 0xFFFF
    · rw [if_pos hu16, if_pos hu16]
      refine ⟨0x80 ||| 126, toBeBytes 2 len, rfl, by decide, by decide, by simp; rfl,
        fun more => ?_⟩
      have htake : (toBeBytes 2 len ++ more).take 2 = toBeBytes 2 len :=
        List.take_left' (length_toBeBytes 2 len)
      show fromBeBytes ((toBeBytes 2 len ++ more).take 2) = len
      rw [htake, fromBeBytes_toBeBytes (by omega)]
    · rw [if_neg hu16, if_neg hu16]
      refine ⟨0x80 ||| 127, toBeBytes 8 len, rfl, by decide, by decide, by simp; rfl,
        fun more => ?_⟩
      have htake : (toBeBytes 8 len ++ more).take 8 = toBeBytes 8 len :=
        List.take_left' (length_toBeBytes 8 len)
      show fromBeBytes ((toBeBytes 8 len ++ more).take 8) = len
      rw [htake, fromBeBytes_toBeBytes (by omega)]

/-- A client frame is read back as what it was made from. -/
theorem parseFrame_clientFrame (mask : Mask) {opcode : UInt8} {payload : Bytes}
    (hop : opcode ∈ opcodes) (hlen : payload.length < 2 ^ 63)
    (hcontrol : Permitted opcode payload) (more : Bytes) :
    parseFrame (clientFrame mask opcode payload ++ more) =
      some ({ fin := true, rsv := 0, opcode := opcode, masked := true,
              form := shortestForm payload.length, key := mask, payload := payload }, more) := by
  obtain ⟨b1, tail, hbytes, hmask, hform, htail, hlength⟩ := maskedLength_spec hlen
  obtain ⟨hrsv, hfin, hopcode⟩ := first_byte true hop
  rw [if_pos rfl] at hrsv hfin hopcode
  have hsplit : clientFrame mask opcode payload ++ more = (0x80 ||| opcode) :: b1 ::
      (tail ++ (mask.bytes ++ (applyMask mask payload ++ more))) := by
    simp [clientFrame, hbytes]
  have hdrop : (tail ++ (mask.bytes ++ (applyMask mask payload ++ more))).drop
      (shortestForm payload.length).extended =
      mask 0 :: mask 1 :: mask 2 :: mask 3 :: (applyMask mask payload ++ more) := by
    rw [List.drop_left' htail]
    rfl
  have hkey : ![mask 0, mask 1, mask 2, mask 3] = mask := by
    funext i
    fin_cases i <;> rfl
  have htake : (applyMask mask payload ++ more).take payload.length = applyMask mask payload :=
    List.take_left' (length_applyMask mask payload)
  have hrest : (applyMask mask payload ++ more).drop payload.length = more :=
    List.drop_left' (length_applyMask mask payload)
  rw [hsplit]
  simp only [parseFrame, hform, hdrop, hlength, hkey, htake, hrest, applyMask_applyMask, hrsv, hfin,
    hopcode, decide_eq_true hmask]
  rw [if_pos]
  refine ⟨by simp, rfl, hop, rfl, shortestForm_isMinimal hlen, fun h => ⟨rfl, hcontrol h⟩⟩

/-! ### Sequences of calls -/

/-- A byte slice of the target. -/
structure Slice (A : Arch) where
  bytes : Bytes
  length_le : bytes.length ≤ A.isizeMax

/-- The calls that send a frame. -/
inductive SendCall (A : Arch)
  | binary (payload : Slice A)
  | pong (payload : Slice A)
  | close (code : UInt16)

variable {A : Arch}

namespace SendCall

/-- The opcode of the frame. -/
def opcode : SendCall A → UInt8
  | binary _ => opBinary
  | pong _ => opPong
  | close _ => opClose

/-- The payload of the frame; a close carries its code. -/
def payload : SendCall A → Bytes
  | binary payload => payload.bytes
  | pong payload => payload.bytes
  | close code => toBeBytes 2 code.toNat

/-- The call itself. -/
def run (mask : Mask) : SendCall A → Prog Sink IoError Unit
  | binary payload => sendBinary mask payload.bytes
  | pong payload => sendPong mask payload.bytes
  | close code => sendClose mask code

theorem run_eq (mask : Mask) (call : SendCall A) :
    call.run mask = sendFrame mask call.opcode call.payload := by
  cases call <;> rfl

theorem opcode_mem (call : SendCall A) : call.opcode ∈ opcodes := by
  cases call <;> simp [opcode, opcodes]

theorem length_payload (call : SendCall A) : call.payload.length < 2 ^ 63 := by
  have hu64 := A.le_u64
  have hslice : ∀ payload : Slice A, payload.bytes.length < 2 ^ 63 := by
    intro payload
    have := payload.length_le
    unfold Arch.isizeMax at this
    omega
  cases call with
  | binary payload => exact hslice payload
  | pong payload => exact hslice payload
  | close code =>
    rw [payload, length_toBeBytes]
    omega

/-- The frame that the server should see. -/
def frame (mask : Mask) (call : SendCall A) : ClientFrame where
  fin := true
  rsv := 0
  opcode := call.opcode
  masked := true
  form := shortestForm call.payload.length
  key := mask
  payload := call.payload

end SendCall

/-- One call after the other, each with the mask that `fill_random` gives it. -/
def sendAll : List (Mask × SendCall A) → Prog Sink IoError Unit
  | [] => pure ()
  | (mask, call) :: calls => do
    call.run mask
    sendAll calls

/-- More fuel than there are bytes changes nothing. -/
theorem parseFrames_append {frame : ClientFrame} {bytes more : Bytes}
    (hparse : parseFrame (bytes ++ more) = some (frame, more)) (hne : bytes ≠ []) {fuel : ℕ}
    {frames : List ClientFrame} (h : ∀ fuel' ≥ more.length, parseFrames fuel' more = some frames)
    (hfuel : (bytes ++ more).length ≤ fuel) :
    parseFrames fuel (bytes ++ more) = some (frame :: frames) := by
  obtain ⟨b, tail, rfl⟩ := List.exists_cons_of_ne_nil hne
  rw [List.length_append, List.length_cons] at hfuel
  obtain ⟨fuel, rfl⟩ : ∃ f, fuel = f + 1 := ⟨fuel - 1, by omega⟩
  rw [List.cons_append] at hparse ⊢
  unfold parseFrames
  rw [hparse]
  simp [h fuel (by omega)]

theorem sendAll_parses (calls : List (Mask × SendCall A)) {s s' : Sink}
    (h : sendAll calls s = (.ok (), s')) :
    ∃ bytes, s.Puts bytes s' ∧ ∀ fuel ≥ bytes.length,
      parseFrames fuel bytes = some (calls.map fun c => c.2.frame c.1) := by
  induction calls generalizing s with
  | nil =>
    obtain rfl : s = s' := congrArg Prod.snd h
    refine ⟨[], Puts.refl s, fun fuel _ => ?_⟩
    cases fuel <;> rfl
  | cons c calls ih =>
    obtain ⟨mask, call⟩ := c
    have hspec := sendFrame_spec mask call.opcode call.payload s s rfl
    rw [← SendCall.run_eq] at hspec
    change (call.run mask >>= fun _ => sendAll calls) s = _ at h
    rw [Prog.bind_run] at h
    rcases hrun : call.run mask s with ⟨_ | _ | _, s₁⟩
    · rw [hrun] at h hspec
      obtain ⟨hputs, hcontrol⟩ := hspec
      obtain ⟨bytes, hputs', hparse⟩ := ih h
      refine ⟨_, hputs.trans hputs', fun fuel hfuel => ?_⟩
      exact parseFrames_append (parseFrame_clientFrame mask call.opcode_mem call.length_payload
        hcontrol bytes) (List.cons_ne_nil _ _) hparse hfuel
    · rw [hrun] at h
      cases h
    · rw [hrun] at h
      cases h

/-- If every call of a sequence succeeds, the server recovers the frames from the bytes that were
put on the wire: FIN set, no reserved bits, the opcodes, the mask bits, minimal lengths, the keys
and the payloads. -/
theorem sent_frames_parse (calls : List (Mask × SendCall A)) (s s' : Sink)
    (h : sendAll calls s = (.ok (), s')) :
    ∃ bytes, s'.wire = s.wire ++ bytes ∧
      serverParse bytes = some (calls.map fun c =>
        { fin := true, rsv := 0, opcode := c.2.opcode, masked := true,
          form := shortestForm c.2.payload.length, key := c.1, payload := c.2.payload }) ∧
      ∀ c ∈ calls, (shortestForm c.2.payload.length).IsMinimal c.2.payload.length := by
  obtain ⟨bytes, hputs, hparse⟩ := sendAll_parses calls h
  exact ⟨bytes, hputs, hparse _ le_rfl, fun c _ => shortestForm_isMinimal c.2.length_payload⟩

/-- A message, a pong and a close, over a writer that is slow at first. -/
def sampleCalls : List (Mask × SendCall esp32) :=
  [(![0x37, 0xFA, 0x21, 0x3D], .binary ⟨[0x48, 0x65, 0x6C, 0x6C, 0x6F], by decide⟩),
    (![1, 2, 3, 4], .pong ⟨[], by decide⟩), (![0, 0, 0, 0], .close 1000)]

/-- The bytes of the three frames. -/
def sampleWire : Bytes :=
  [0x82, 0x85, 0x37, 0xFA, 0x21, 0x3D, 0x7F, 0x9F, 0x4D, 0x51, 0x58, 0x8A, 0x80, 1, 2, 3, 4,
    0x88, 0x82, 0, 0, 0, 0, 0x03, 0xE8]

theorem sample_frames_parse :
    ∃ bytes, sampleWire = [] ++ bytes ∧
      serverParse bytes = some (sampleCalls.map fun c =>
        { fin := true, rsv := 0, opcode := c.2.opcode, masked := true,
          form := shortestForm c.2.payload.length, key := c.1, payload := c.2.payload }) ∧
      ∀ c ∈ sampleCalls, (shortestForm c.2.payload.length).IsMinimal c.2.payload.length :=
  sent_frames_parse sampleCalls
    { writes := [.accepts 1, .fails ⟨.interrupted, ""⟩, .accepts 4] } { wire := sampleWire } (by rfl)

end WhatsappEsp32.Ws
