import WhatsappEsp32.Lib.CrashLogic
import WhatsappEsp32.Lib.Stream

/-!
# Input and output of the Rust standard library

The machine word, the errors and the readers that stream code is written with.  A reader is a
program on its own state that gives at most as many bytes as it is asked for, and no bytes at the
end.

* `Arch`, `ErrorKind`, `IoError`, `Socket`;
* `Patient`: a stream that reports no error but an interruption;
* `BufReader` with `fillBuf`, `read`, `readExact` and the `read_until` of a `take`, and what they
  do on such a stream;
* `readToEnd`, and `readToEnd_spec`: when every read takes its bytes off the front of one value,
  reading to the end gives that value, whatever the sizes of the reads.
-/

namespace RustIo

open CrashLogic Scripted

/-- The machine word of a target of at least 32 bits. -/
structure Arch where
  usizeMax : ℕ
  u32_le : 2 ^ 32 - 1 ≤ usizeMax
  le_u64 : usizeMax < 2 ^ 64

/-- `isize::MAX`, the length of the largest buffer. -/
def Arch.isizeMax (A : Arch) : ℕ := A.usizeMax / 2

/-- `usize::saturating_add`. -/
def saturatingAdd (A : Arch) (a b : ℕ) : ℕ := min (a + b) A.usizeMax

/-- The kinds of `io::Error` that are told apart. -/
inductive ErrorKind
  | wouldBlock
  | timedOut
  | interrupted
  | unexpectedEof
  | invalidData
  | other
  deriving DecidableEq, Repr

/-- `std::io::Error`: its kind and its text. -/
structure IoError where
  kind : ErrorKind
  message : String
  deriving DecidableEq, Repr

variable {ε : Type}

/-- A connected stream: the reads to come, what was written, and an error that writes report. -/
structure Socket (ε : Type) where
  inbound : Script UInt8 ε
  outbound : List UInt8 := []
  writeErr : Option IoError := none

/-- A read takes what has arrived, and leaves what was written alone. -/
def Socket.read (n : ℕ) (s : Socket ε) : Except ε (List UInt8) × Socket ε :=
  ((s.inbound.read n).1, { s with inbound := (s.inbound.read n).2 })

/-- `write_all`: everything is written, or the error that the socket has for it. -/
def Socket.writeAll (bytes : List UInt8) (s : Socket ε) : Except IoError (Socket ε) :=
  match s.writeErr with
  | some e => .error e
  | none => .ok { s with outbound := s.outbound ++ bytes }

/-- Every read gives data or is interrupted, up to the end of the stream. -/
structure Patient (script : Script UInt8 IoError) : Prop where
  nonEmpty : script.NonEmpty
  interrupted : ∀ e, Event.fails e ∈ script → e.kind = .interrupted

theorem Patient.leaves {script rest : Script UInt8 IoError} {bytes : List UInt8}
    (h : Patient script) (hrest : script.Leaves bytes rest) : Patient rest :=
  ⟨hrest.nonEmpty h.nonEmpty, fun e he => h.interrupted e (hrest.fails e he)⟩

theorem patient_of_clean {script : Script UInt8 IoError} (h : script.Clean) : Patient script :=
  ⟨h.nonEmpty, fun e he => (h.noFails e he).elim⟩

/-! ### Buffered readers -/

/-- `BufReader::with_capacity`: the reader behind it, and what is buffered and not consumed. -/
structure BufReader where
  capacity : ℕ
  inner : Script UInt8 IoError
  buf : List UInt8 := []

namespace BufReader

/-- Read past the buffer. -/
def readInner (n : ℕ) : Prog BufReader IoError (List UInt8) := fun r =>
  match r.inner.read n with
  | (.ok bytes, inner) => (.ok bytes, { r with inner := inner })
  | (.error e, inner) => (.error e, { r with inner := inner })

/-- `fill_buf`: the buffered bytes, after a read if there are none. -/
def fillBuf : Prog BufReader IoError (List UInt8) := do
  let r ← Prog.get
  if r.buf = [] then
    let bytes ← readInner r.capacity
    Prog.modify fun r => { r with buf := bytes }
    pure bytes
  else
    pure r.buf

/-- `consume`: the first `n` bytes of the buffer are used up. -/
def consume (n : ℕ) : Prog BufReader IoError Unit :=
  Prog.modify fun r => { r with buf := r.buf.drop n }

/-- `read`: a buffer that is at least as large as the reader's own is filled directly. -/
def read (n : ℕ) : Prog BufReader IoError (List UInt8) := do
  let r ← Prog.get
  if r.buf = [] ∧ r.capacity ≤ n then
    readInner n
  else
    let available ← fillBuf
    consume n
    pure (available.take n)

/-- The loop of `read_exact`; interrupted reads are made again. -/
def readExactLoop : ℕ → ℕ → Prog BufReader IoError (List UInt8)
  | 0, _ => .halt
  | fuel + 1, n =>
    if n = 0 then
      pure []
    else do
      match ← (read n).attempt with
      | .ok [] => .throw ⟨.unexpectedEof, "failed to fill whole buffer"⟩
      | .ok bytes => do
        let more ← readExactLoop fuel (n - bytes.length)
        pure (bytes ++ more)
      | .error e => if e.kind = .interrupted then readExactLoop fuel n else .throw e

/-- The loop of `take(limit).read_until(delim)`, after `line` has been read. -/
def readUntilLoop (delim : UInt8) : ℕ → ℕ → List UInt8 → Prog BufReader IoError (List UInt8)
  | 0, _, _ => .halt
  | fuel + 1, limit, line =>
    if limit = 0 then
      pure line
    else do
      match ← fillBuf.attempt with
      | .ok available =>
        let available := available.take limit
        if delim ∈ available then do
          let used := available.takeWhile (· ≠ delim) ++ [delim]
          consume used.length
          pure (line ++ used)
        else if available = [] then
          pure line
        else do
          consume available.length
          readUntilLoop delim fuel (limit - available.length) (line ++ available)
      | .error e =>
        if e.kind = .interrupted then readUntilLoop delim fuel limit line else .throw e

/-- The number of reads and bytes that are left. -/
def size (r : BufReader) : ℕ := r.buf.length + r.inner.size

/-- `read_exact`: exactly `n` bytes, or an error. -/
def readExact (n : ℕ) : Prog BufReader IoError (List UInt8) := fun r =>
  readExactLoop (r.size + 1) n r

/-- `take(limit).read_until(delim)`: up to the delimiter, it included, and at most `limit` bytes. -/
def readUntil (delim : UInt8) (limit : ℕ) : Prog BufReader IoError (List UInt8) := fun r =>
  readUntilLoop delim (r.size + 1) limit [] r

/-! ### What they do -/

/-- The bytes that are left to read. -/
def rest (r : BufReader) : List UInt8 := r.buf ++ r.inner.payload

/-- `bytes` have been taken off the front. -/
structure Reads (r : BufReader) (bytes : List UInt8) (r' : BufReader) : Prop where
  patient : Patient r'.inner
  capacity : r'.capacity = r.capacity
  rest : r.rest = bytes ++ r'.rest
  size : r'.size + bytes.length ≤ r.size

theorem Reads.refl {r : BufReader} (h : Patient r.inner) : r.Reads [] r := ⟨h, rfl, rfl, le_rfl⟩

theorem Reads.trans {r r' r'' : BufReader} {bytes bytes' : List UInt8} (h : r.Reads bytes r')
    (h' : r'.Reads bytes' r'') : r.Reads (bytes ++ bytes') r'' where
  patient := h'.patient
  capacity := h'.capacity.trans h.capacity
  rest := by rw [h.rest, h'.rest, List.append_assoc]
  size := by
    have := h.size
    have := h'.size
    rw [List.length_append]
    omega

/-- An interruption: a read of the stream has been used up. -/
def Interrupts (r : BufReader) (e : IoError) (r' : BufReader) : Prop :=
  r.Reads [] r' ∧ e.kind = .interrupted ∧ r'.size < r.size

theorem readInner_spec {r : BufReader} (h : Patient r.inner) (hbuf : r.buf = []) {n : ℕ}
    (hn : 0 < n) :
    Triple (fun t => t = r) (readInner n)
      (fun bytes r' => r.Reads bytes r' ∧ r'.buf = [] ∧ bytes.length ≤ n ∧
        (bytes = [] → r.rest = []))
      (fun e r' => r.Interrupts e r') (fun _ => False) := by
  have hreads : ∀ {bytes : List UInt8} {inner : Script UInt8 IoError}, r.inner.Leaves bytes inner →
      r.Reads bytes { r with inner := inner } := by
    intro bytes inner hleaves
    refine ⟨h.leaves hleaves, rfl, ?_, ?_⟩
    · simp only [rest, hbuf, List.nil_append, hleaves.payload]
    · simp only [size, hbuf, List.length_nil, zero_add]
      exact hleaves.size
  refine Triple.ofRun ?_
  unfold readInner
  rcases r.inner.read_cases hn with ⟨inner, hread, hleaves, hend⟩ |
    ⟨bytes, inner, hread, hne, hle, hleaves⟩ | ⟨e, inner, hread, hmem, hleaves, hlt⟩
  · rw [hread]
    refine ⟨hreads hleaves, hbuf, Nat.zero_le _, fun _ => ?_⟩
    rw [rest, hbuf, hend h.nonEmpty]
    rfl
  · rw [hread]
    exact ⟨hreads hleaves, hbuf, hle, fun hnil => (hne hnil).elim⟩
  · rw [hread]
    refine ⟨hreads hleaves, h.interrupted e hmem, ?_⟩
    simp only [size, hbuf, List.length_nil, zero_add]
    exact hlt

theorem fillBuf_spec {r : BufReader} (h : Patient r.inner) (hcap : 0 < r.capacity) :
    Triple (fun t => t = r) fillBuf
      (fun available r' => r.Reads [] r' ∧ r'.buf = available ∧ (available = [] → r.rest = []))
      (fun e r' => r.Interrupts e r') (fun _ => False) := by
  refine Triple.bindRead fun t ht => ⟨t, rfl, ?_⟩
  subst ht
  by_cases hbuf : t.buf = []
  · rw [if_pos hbuf]
    refine Triple.bind (readInner_spec h hbuf hcap) fun bytes => ?_
    refine Triple.ofState fun r' ⟨hreads, hbuf', _, hend⟩ => Triple.ofRun ⟨?_, rfl, hend⟩
    refine ⟨hreads.patient, hreads.capacity, ?_, ?_⟩
    · show t.rest = [] ++ (bytes ++ r'.inner.payload)
      rw [hreads.rest, rest, hbuf', List.nil_append, List.nil_append]
    · have hsize := hreads.size
      simp only [size, hbuf', List.length_nil, zero_add] at hsize
      show bytes.length + r'.inner.size + 0 ≤ t.size
      rw [size]
      omega
  · rw [if_neg hbuf]
    exact Triple.ofRun ⟨.refl h, rfl, fun hnil => (hbuf hnil).elim⟩

/-- Consuming the front of the buffer. -/
theorem reads_drop {r : BufReader} (h : Patient r.inner) (n : ℕ) :
    r.Reads (r.buf.take n) { r with buf := r.buf.drop n } := by
  refine ⟨h, rfl, ?_, ?_⟩
  · simp only [rest, ← List.append_assoc, List.take_append_drop]
  · simp only [size, List.length_drop, List.length_take]
    omega

theorem read_spec {r : BufReader} (h : Patient r.inner) (hcap : 0 < r.capacity) {n : ℕ}
    (hn : 0 < n) :
    Triple (fun t => t = r) (read n)
      (fun bytes r' => r.Reads bytes r' ∧ bytes.length ≤ n ∧ (bytes = [] → r.rest = []))
      (fun e r' => r.Interrupts e r') (fun _ => False) := by
  refine Triple.bindRead fun t ht => ⟨t, rfl, ?_⟩
  subst ht
  by_cases hdirect : t.buf = [] ∧ t.capacity ≤ n
  · rw [if_pos hdirect]
    exact (readInner_spec h hdirect.1 hn).weaken (fun _ => id)
      (fun _ _ ⟨hreads, _, hle, hend⟩ => ⟨hreads, hle, hend⟩) (fun _ _ => id) (fun _ => id)
  · rw [if_neg hdirect]
    refine Triple.bind (fillBuf_spec h hcap) fun available => ?_
    refine Triple.ofState fun r' ⟨hreads, hbuf, hend⟩ => ?_
    subst hbuf
    refine Triple.ofRun ⟨?_, ?_, ?_⟩
    · exact hreads.trans (reads_drop hreads.patient n)
    · show (r'.buf.take n).length ≤ n
      rw [List.length_take]
      omega
    · intro hnil
      refine hend ?_
      rcases List.take_eq_nil_iff.mp hnil with hzero | hnil
      · omega
      · exact hnil

theorem readExactLoop_spec (fuel : ℕ) {r : BufReader} (h : Patient r.inner) (hcap : 0 < r.capacity)
    {n : ℕ} (hfuel : r.size < fuel) :
    Triple (fun t => t = r) (readExactLoop fuel n)
      (fun bytes r' => r.Reads bytes r' ∧ bytes.length = n)
      (fun e _ => r.rest.length < n ∧ e = ⟨.unexpectedEof, "failed to fill whole buffer"⟩)
      (fun _ => False) := by
  induction fuel generalizing r n with
  | zero => omega
  | succ fuel ih =>
    unfold readExactLoop
    by_cases hn : n = 0
    · rw [if_pos hn]
      exact Triple.ofRun ⟨.refl h, hn.symm⟩
    · rw [if_neg hn]
      refine Triple.bindAttempt (read_spec h hcap (by omega)) (fun e => ?_) fun bytes => ?_
      · refine Triple.ofState fun r' ⟨hreads, hkind, hlt⟩ => ?_
        -- an interrupted read is tried again; it has used up a piece of the script
        simp only [if_pos hkind]
        have hrest := hreads.rest
        rw [List.nil_append] at hrest
        rw [hrest]
        refine (ih hreads.patient (hreads.capacity ▸ hcap) (by omega)).weaken (fun _ => id)
          (fun bytes r'' ⟨hreads', hlen⟩ => ⟨hreads.trans hreads', hlen⟩) (fun _ _ => id)
          (fun _ => id)
      · refine Triple.ofState fun r' ⟨hreads, hle, hend⟩ => ?_
        cases bytes with
        | nil =>
          refine Triple.ofRun ⟨?_, rfl⟩
          rw [hend rfl, List.length_nil]
          omega
        | cons b bytes =>
          have hsize := hreads.size
          have hlength := congrArg List.length hreads.rest
          simp only [List.length_cons, List.length_append] at hsize hlength hle
          refine Triple.bind ((ih hreads.patient (hreads.capacity ▸ hcap) (by omega)).weaken
            (fun _ => id) (fun _ _ => id) (fun e r'' ⟨hlt, he⟩ => ⟨?_, he⟩) (fun _ => id))
            fun more => ?_
          · simp only [List.length_cons] at hlt
            omega
          · refine Triple.pure _ fun r'' ⟨hreads', hlen⟩ => ⟨hreads.trans hreads', ?_⟩
            simp only [List.length_append, List.length_cons] at hlen ⊢
            omega

theorem readExact_spec {r : BufReader} (h : Patient r.inner) (hcap : 0 < r.capacity) (n : ℕ) :
    Triple (fun t => t = r) (readExact n)
      (fun bytes r' => r.Reads bytes r' ∧ bytes.length = n)
      (fun e _ => r.rest.length < n ∧ e = ⟨.unexpectedEof, "failed to fill whole buffer"⟩)
      (fun _ => False) := by
  rintro _ rfl
  exact readExactLoop_spec _ h hcap (Nat.lt_succ_self _) _ rfl

/-- The bytes up to and including the first `delim`, and at most `limit` of them. -/
def takeUntil (delim : UInt8) : ℕ → List UInt8 → List UInt8
  | 0, _ => []
  | _ + 1, [] => []
  | limit + 1, b :: bytes => if b = delim then [b] else b :: takeUntil delim limit bytes

@[simp] theorem takeUntil_nil (delim : UInt8) (limit : ℕ) : takeUntil delim limit [] = [] := by
  cases limit <;> rfl

@[simp] theorem takeUntil_zero (delim : UInt8) (bytes : List UInt8) :
    takeUntil delim 0 bytes = [] := by
  cases bytes <;> rfl

theorem takeUntil_of_mem {delim : UInt8} {bytes : List UInt8} (h : delim ∈ bytes) {limit : ℕ}
    (hlimit : bytes.length ≤ limit) (more : List UInt8) :
    takeUntil delim limit (bytes ++ more) = bytes.takeWhile (· ≠ delim) ++ [delim] := by
  induction bytes generalizing limit with
  | nil => cases h
  | cons b bytes ih =>
    rw [List.length_cons] at hlimit
    obtain ⟨limit, rfl⟩ : ∃ l, limit = l + 1 := ⟨limit - 1, by omega⟩
    by_cases hb : b = delim
    · simp [takeUntil, hb]
    · have hmem : delim ∈ bytes := (List.mem_cons.mp h).resolve_left fun h => hb h.symm
      simp [takeUntil, hb, ih hmem (by omega : bytes.length ≤ limit)]

theorem takeUntil_of_not_mem {delim : UInt8} {bytes : List UInt8} (h : delim ∉ bytes) {limit : ℕ}
    (hlimit : bytes.length ≤ limit) (more : List UInt8) :
    takeUntil delim limit (bytes ++ more) =
      bytes ++ takeUntil delim (limit - bytes.length) more := by
  induction bytes generalizing limit with
  | nil => simp
  | cons b bytes ih =>
    rw [List.length_cons] at hlimit
    obtain ⟨limit, rfl⟩ : ∃ l, limit = l + 1 := ⟨limit - 1, by omega⟩
    have hb : b ≠ delim := fun hb => h (hb ▸ List.mem_cons_self)
    have hmem : delim ∉ bytes := fun hmem => h (List.mem_cons_of_mem _ hmem)
    simp [takeUntil, hb, ih hmem (by omega : bytes.length ≤ limit)]

/-- A line is a prefix of the bytes it is taken from. -/
theorem takeUntil_append_drop (delim : UInt8) (limit : ℕ) (bytes : List UInt8) :
    takeUntil delim limit bytes ++ bytes.drop (takeUntil delim limit bytes).length = bytes := by
  induction bytes generalizing limit with
  | nil => simp
  | cons b bytes ih =>
    cases limit with
    | zero => simp
    | succ limit =>
      by_cases hb : b = delim
      · simp [takeUntil, hb]
      · simp [takeUntil, hb, ih]

/-- Only the end of a line is its delimiter. -/
theorem not_mem_of_takeUntil {delim : UInt8} {limit : ℕ} {bytes line : List UInt8}
    (h : takeUntil delim limit bytes = line ++ [delim]) : delim ∉ line := by
  induction bytes generalizing limit line with
  | nil => simp at h
  | cons b bytes ih =>
    cases limit with
    | zero => simp at h
    | succ limit =>
      rw [takeUntil] at h
      cases line with
      | nil => exact List.not_mem_nil
      | cons c line =>
        split_ifs at h with hb
        · simp at h
        · simp only [List.cons_append, List.cons.injEq] at h
          rw [List.mem_cons, not_or]
          exact ⟨fun hc => hb (h.1.trans hc.symm), ih h.2⟩

theorem readUntilLoop_spec (delim : UInt8) (fuel : ℕ) {r : BufReader} (h : Patient r.inner)
    (hcap : 0 < r.capacity) {limit : ℕ} {line : List UInt8} (hfuel : r.size < fuel) :
    Triple (fun t => t = r) (readUntilLoop delim fuel limit line)
      (fun result r' => result = line ++ takeUntil delim limit r.rest ∧
        r.Reads (takeUntil delim limit r.rest) r')
      (fun _ _ => False) (fun _ => False) := by
  induction fuel generalizing r limit line with
  | zero => omega
  | succ fuel ih =>
    unfold readUntilLoop
    by_cases hzero : limit = 0
    · rw [if_pos hzero]
      subst hzero
      exact Triple.ofRun ⟨by simp, by simpa using Reads.refl h⟩
    · rw [if_neg hzero]
      refine Triple.bindAttempt (fillBuf_spec h hcap) (fun e => ?_) fun available => ?_
      · refine Triple.ofState fun r' ⟨hreads, hkind, hlt⟩ => ?_
        simp only [if_pos hkind]
        have hrest := hreads.rest
        rw [List.nil_append] at hrest
        rw [hrest]
        exact (ih hreads.patient (hreads.capacity ▸ hcap) (by omega)).weaken (fun _ => id)
          (fun _ _ ⟨hline, hreads'⟩ => ⟨hline, hreads.trans hreads'⟩) (fun _ _ => id) (fun _ => id)
      · refine Triple.ofState fun r' ⟨hreads, hbuf, hend⟩ => ?_
        subst hbuf
        have hrest := hreads.rest
        rw [List.nil_append, BufReader.rest, BufReader.rest,
          ← List.take_append_drop limit r'.buf, List.append_assoc] at hrest
        have hrest' : r.rest = r'.buf.take limit ++ (r'.buf.drop limit ++ r'.inner.payload) := hrest
        have hlen : (r'.buf.take limit).length ≤ limit := by
          rw [List.length_take]
          omega
        simp only
        by_cases hmem : delim ∈ r'.buf.take limit
        · rw [if_pos hmem, hrest', takeUntil_of_mem hmem hlen]
          have hused := takeUntil_append_drop delim limit (r'.buf.take limit ++ [])
          rw [takeUntil_of_mem hmem hlen, List.append_nil] at hused
          generalize (r'.buf.take limit).takeWhile (· ≠ delim) ++ [delim] = used at hused
          have htake : r'.buf.take used.length = used := by
            have hbuf := List.take_append_drop limit r'.buf
            rw [← hused, List.append_assoc] at hbuf
            rw [← hbuf, List.take_left]
          refine Triple.ofRun ⟨rfl, ?_⟩
          have hdrop := reads_drop hreads.patient used.length
          rw [htake] at hdrop
          exact hreads.trans hdrop
        · rw [if_neg hmem, hrest', takeUntil_of_not_mem hmem hlen]
          by_cases hnil : r'.buf.take limit = []
          · -- the stream has ended
            have hempty : r'.buf = [] := by
              rcases List.take_eq_nil_iff.mp hnil with hl | hb
              · exact (hzero hl).elim
              · exact hb
            have hpayload : r'.buf.drop limit ++ r'.inner.payload = [] := by
              have := hend hempty
              rw [hrest', hnil, List.nil_append] at this
              exact this
            rw [if_pos hnil, hnil, hpayload]
            exact Triple.ofRun ⟨by simp, by simpa using hreads⟩
          · rw [if_neg hnil]
            have hpos := List.length_pos_iff.mpr hnil
            have hdrop := reads_drop hreads.patient (r'.buf.take limit).length
            have htake : r'.buf.take (r'.buf.take limit).length = r'.buf.take limit := by
              rw [List.length_take, List.take_eq_take_min]
              simp
            rw [htake] at hdrop
            have hreads' := hreads.trans hdrop
            rw [List.nil_append] at hreads'
            have hsize := hreads'.size
            have hnext := hreads'.rest
            rw [hrest', List.append_cancel_left_eq] at hnext
            refine Triple.bind (M := fun _ s => s = { r' with
              buf := r'.buf.drop (r'.buf.take limit).length })
              (Triple.modify _ fun s hs => by rw [hs]) fun _ => ?_
            refine (ih hreads'.patient (hreads'.capacity ▸ hcap) (by omega)).weaken (fun _ => id) ?_
              (fun _ _ => id) (fun _ => id)
            rintro result r'' ⟨hline, hreads''⟩
            rw [← hnext] at hline hreads''
            exact ⟨by rw [hline, List.append_assoc], hreads'.trans hreads''⟩

/-- A line is read off the front of what is left, whatever the reads. -/
theorem readUntil_spec (delim : UInt8) (limit : ℕ) {r : BufReader} (h : Patient r.inner)
    (hcap : 0 < r.capacity) :
    Triple (fun t => t = r) (readUntil delim limit)
      (fun line r' => line = takeUntil delim limit r.rest ∧
        r.Reads (takeUntil delim limit r.rest) r')
      (fun _ _ => False) (fun _ => False) := by
  rintro _ rfl
  exact readUntilLoop_spec delim _ h hcap (Nat.lt_succ_self _) _ rfl

end BufReader

/-! ### Reading to the end -/

variable {ρ : Type}

/-- Read until a read gives no bytes or an error other than an interruption.  `sizes` are the sizes
of the buffers that are offered, one after the other. -/
def readToEnd (read : ℕ → Prog ρ IoError (List UInt8)) :
    ℕ → (ℕ → ℕ) → Prog ρ IoError (List UInt8)
  | 0, _ => .halt
  | calls + 1, sizes => do
    match ← (read (sizes 0)).attempt with
    | .ok [] => pure []
    | .ok bytes => do
      let more ← readToEnd read calls fun i => sizes (i + 1)
      pure (bytes ++ more)
    | .error e =>
      if e.kind = .interrupted then readToEnd read calls fun i => sizes (i + 1) else .throw e

/-- What one read may do for a reader that holds the value `v`: `Holds r v m` bounds the reads that
are left by `m`, and `Done` is what holds of a reader that has given no bytes. -/
def Serves (read : ℕ → Prog ρ IoError (List UInt8))
    (Holds : ρ → Except IoError (List UInt8) → ℕ → Prop) (Done : ρ → Prop) : Prop :=
  ∀ r v m n, Holds r v m → 0 < n → Triple (fun t => t = r) (read n)
    (fun bytes r' => (bytes = [] ∧ v = .ok [] ∧ Done r') ∨
      bytes ≠ [] ∧ ∃ v' m', m' < m ∧ Holds r' v' m' ∧ v = v'.map (bytes ++ ·))
    (fun e r' => (e.kind = .interrupted ∧ ∃ m', m' < m ∧ Holds r' v m') ∨
      e.kind ≠ .interrupted ∧ v = .error e)
    (fun _ => False)

/-- Reading to the end gives the value that the reader holds. -/
theorem readToEnd_spec {read : ℕ → Prog ρ IoError (List UInt8)}
    {Holds : ρ → Except IoError (List UInt8) → ℕ → Prop} {Done : ρ → Prop}
    (h : Serves read Holds Done) (calls : ℕ)
    {sizes : ℕ → ℕ} (hsizes : ∀ i, 0 < sizes i) {r : ρ} {v : Except IoError (List UInt8)} {m : ℕ}
    (hr : Holds r v m) (hcalls : m < calls) :
    Triple (fun t => t = r) (readToEnd read calls sizes)
      (fun bytes r' => v = .ok bytes ∧ Done r')
      (fun e _ => v = .error e) (fun _ => False) := by
  induction calls generalizing sizes r v m with
  | zero => omega
  | succ calls ih =>
    refine Triple.bindAttempt (h r v m (sizes 0) hr (hsizes 0)) (fun e => ?_) fun bytes => ?_
    · refine Triple.ofState fun r' hpost => ?_
      rcases hpost with ⟨hkind, m', hlt, hholds⟩ | ⟨hkind, hv⟩
      · simp only [if_pos hkind]
        exact ih (fun i => hsizes (i + 1)) hholds (by omega)
      · simp only [if_neg hkind]
        exact Triple.ofRun hv
    · refine Triple.ofState fun r' hpost => ?_
      rcases hpost with ⟨rfl, hv, hdone⟩ | ⟨hne, v', m', hlt, hholds, hv⟩
      · exact Triple.ofRun ⟨hv, hdone⟩
      · cases bytes with
        | nil => exact (hne rfl).elim
        | cons b bytes =>
          refine Triple.bind ((ih (fun i => hsizes (i + 1)) hholds (by omega)).weaken (fun _ => id)
            (fun _ _ => id) (fun e _ he => ?_) (fun _ => id)) fun more => ?_
          · rw [hv, he]
            rfl
          · refine Triple.pure _ fun r'' ⟨hmore, hdone⟩ => ⟨?_, hdone⟩
            rw [hv, hmore]
            rfl

end RustIo
