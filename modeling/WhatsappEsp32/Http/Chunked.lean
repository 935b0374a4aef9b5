import WhatsappEsp32.Lib.RustIo
import WhatsappEsp32.Storage.Record

/-!
# The chunked transfer coding

`ChunkedReader` of `http_chunked.rs`, and what it makes of a byte string.

* the reader: `line`, `readTrailers`, `nextChunk`, `readData`, `read`;
* `dechunk`: the same on a whole byte string, with what is left behind the body;
* one specification for each function of the reader, up to `read_serves`: a read takes its bytes off
  the front of the decoded body.
-/

namespace WhatsappEsp32.Http

open CrashLogic Scripted RustIo

/-- The bound on a chunk-size line, and on the trailers together. -/
def maxMetadataBytes : ℕ := 8 * 1024

/-- The end of a line. -/
def crlf : Bytes := [13, 10]

/-- An error of kind `InvalidData`. -/
def invalidData (message : String) : IoError := ⟨.invalidData, message⟩

/-! ### The reader -/

/-- The decoder: what is left of the chunk, whether its closing CRLF is still to come, and whether
the last chunk was read. -/
structure ChunkedReader where
  inner : BufReader
  remaining : ℕ
  needsCrlf : Bool
  finished : Bool

/-- Operations of the reader; being stopped is a panic. -/
abbrev ChunkedM := Prog ChunkedReader IoError

/-- `u8::is_ascii_hexdigit`. -/
def isAsciiHexdigit (b : UInt8) : Bool :=
  (48 ≤ b && b ≤ 57) || (65 ≤ b && b ≤ 70) || (97 ≤ b && b ≤ 102)

/-- The value of a hexadecimal digit. -/
def hexDigit (b : UInt8) : ℕ :=
  if b ≤ 57 then b.toNat - 48 else if b ≤ 70 then b.toNat - 55 else b.toNat - 87

/-- The value of hexadecimal digits. -/
def fromHex (digits : Bytes) : ℕ := digits.foldl (fun n b => n * 16 + hexDigit b) 0

/-- The size declared by a size line. -/
def chunkSize (line : Bytes) : Except IoError ℕ :=
  let size := (line.take (line.length - 2)).takeWhile (· ≠ 59)
  if size = [] ∨ !size.all isAsciiHexdigit then
    .error (invalidData "Invalid HTTP chunk size")
  else if fromHex size < 2 ^ 64 then
    .ok (fromHex size)
  else
    .error (invalidData "number too large to fit in target type")

namespace ChunkedReader

/-- The decoder at the start of a body, over a `BufReader` of 512 bytes. -/
def new (inner : Script UInt8 IoError) : ChunkedReader := ⟨⟨512, inner, []⟩, 0, false, false⟩

/-- Run a read on the reader behind. -/
def onInner {α : Type} (p : Prog BufReader IoError α) : ChunkedM α :=
  Prog.zoom inner (fun c inner => { c with inner := inner }) p

/-- `line`: one metadata line of at most `limit` bytes, which must end in CRLF. -/
def line (limit : ℕ) : ChunkedM Bytes := do
  let line ← onInner (BufReader.readUntil 10 limit)
  if crlf.isSuffixOf line then
    pure line
  else
    .throw (invalidData "Truncated or oversized HTTP chunk metadata")

/-- The line end after the data of a chunk. -/
def readCrlf : ChunkedM Unit := do
  let c ← Prog.get
  if c.needsCrlf then
    let bytes ← onInner (BufReader.readExact 2)
    if bytes = crlf then pure () else .throw (invalidData "Invalid chunk terminator")
  else
    pure ()

/-- The trailers and the blank line at the end.  Subtracting more than the budget panics. -/
def readTrailers : ℕ → ℕ → ChunkedM Unit
  | 0, _ => .halt
  | fuel + 1, budget => do
    let trailer ← line budget
    if budget < trailer.length then
      .halt
    else if trailer = crlf then
      Prog.modify fun c => { c with finished := true }
    else if 58 ∈ trailer.take (trailer.length - 2) then
      readTrailers fuel (budget - trailer.length)
    else
      .throw (invalidData "Invalid HTTP trailer")

/-- What follows the line of the last chunk. -/
def finish : ChunkedM Bool := do
  readTrailers (maxMetadataBytes + 1) maxMetadataBytes
  pure false

/-- The start of a chunk with data. -/
def begin : ChunkedM Bool := do
  Prog.modify fun c => { c with needsCrlf := true }
  pure true

/-- Read up to the data of the next chunk.  `false` means that there is none. -/
def nextChunk : ChunkedM Bool := do
  readCrlf
  let line ← line maxMetadataBytes
  let size ← Prog.ofExcept (chunkSize line)
  Prog.modify fun c => { c with remaining := size }
  if size = 0 then finish else begin

/-- Read some data of the current chunk. -/
def readData (n : ℕ) : ChunkedM Bytes := do
  let c ← Prog.get
  let bytes ← onInner (BufReader.read (min c.remaining n))
  if bytes = [] then
    .throw ⟨.unexpectedEof, "Truncated HTTP chunk"⟩
  else if c.remaining < bytes.length then
    .halt
  else do
    Prog.modify fun c => { c with remaining := c.remaining - bytes.length }
    pure bytes

/-- Read at most `n` bytes. -/
def read (n : ℕ) : ChunkedM Bytes := do
  let c ← Prog.get
  if n = 0 ∨ c.finished = true then
    pure []
  else if c.remaining = 0 then
    let more ← nextChunk
    if more then readData n else pure []
  else
    readData n

end ChunkedReader

/-! ### Decoding a byte string -/

/-- A line off the front. -/
def cutLine (limit : ℕ) (bytes : Bytes) : Except IoError (Bytes × Bytes) :=
  let line := BufReader.takeUntil 10 limit bytes
  if crlf.isSuffixOf line then
    .ok (line, bytes.drop line.length)
  else
    .error (invalidData "Truncated or oversized HTTP chunk metadata")

theorem length_takeUntil_le (delim : UInt8) (limit : ℕ) (bytes : Bytes) :
    (BufReader.takeUntil delim limit bytes).length ≤ limit := by
  induction bytes generalizing limit with
  | nil => simp
  | cons b bytes ih =>
    cases limit with
    | zero => simp
    | succ limit =>
      rw [BufReader.takeUntil]
      split_ifs
      · simp
      · simpa using ih limit

/-- A line that is cut off: it ends in CRLF, and is followed by the rest. -/
theorem cutLine_eq_ok {limit : ℕ} {bytes line rest : Bytes}
    (h : cutLine limit bytes = .ok (line, rest)) :
    bytes = line ++ rest ∧ crlf <:+ line ∧ line.length ≤ limit ∧
      BufReader.takeUntil 10 limit bytes = line := by
  unfold cutLine at h
  simp only at h
  split_ifs at h with hsuffix
  cases h
  exact ⟨(BufReader.takeUntil_append_drop _ _ _).symm, List.isSuffixOf_iff_suffix.mp hsuffix,
    length_takeUntil_le _ _ _, rfl⟩

theorem two_le_of_suffix {line : Bytes} (h : crlf <:+ line) : 2 ≤ line.length := h.length_le

/-- The trailers and the blank line off the front. -/
def cutTrailers (budget : ℕ) (bytes : Bytes) : Except IoError Bytes :=
  match h : cutLine budget bytes with
  | .error e => .error e
  | .ok (line, rest) =>
    if line = crlf then
      .ok rest
    else if 58 ∈ line.take (line.length - 2) then
      have : budget - line.length < budget := by
        obtain ⟨-, hsuffix, hle, -⟩ := cutLine_eq_ok h
        have := two_le_of_suffix hsuffix
        omega
      cutTrailers (budget - line.length) rest
    else
      .error (invalidData "Invalid HTTP trailer")
termination_by budget

/-- The line end after the data of a chunk, off the front. -/
def cutCrlf (needsCrlf : Bool) (bytes : Bytes) : Except IoError Bytes :=
  if needsCrlf then
    if bytes.length < 2 then
      .error ⟨.unexpectedEof, "failed to fill whole buffer"⟩
    else if bytes.take 2 = crlf then
      .ok (bytes.drop 2)
    else
      .error (invalidData "Invalid chunk terminator")
  else
    .ok bytes

/-- Everything up to the data of the next chunk off the front, with the size of the chunk; after
the last chunk, everything up to the end of the body. -/
def cutChunk (needsCrlf : Bool) (bytes : Bytes) : Except IoError (ℕ × Bytes) :=
  match cutCrlf needsCrlf bytes with
  | .error e => .error e
  | .ok bytes =>
    match cutLine maxMetadataBytes bytes with
    | .error e => .error e
    | .ok (line, bytes) =>
      match chunkSize line with
      | .error e => .error e
      | .ok 0 => (cutTrailers maxMetadataBytes bytes).map fun rest => (0, rest)
      | .ok size => .ok (size, bytes)

theorem cutLine_length {limit : ℕ} {bytes line rest : Bytes}
    (h : cutLine limit bytes = .ok (line, rest)) : rest.length < bytes.length := by
  obtain ⟨hbytes, hsuffix, -, -⟩ := cutLine_eq_ok h
  have := two_le_of_suffix hsuffix
  rw [hbytes, List.length_append]
  omega

theorem cutCrlf_length {needsCrlf : Bool} {bytes rest : Bytes}
    (h : cutCrlf needsCrlf bytes = .ok rest) : rest.length ≤ bytes.length := by
  unfold cutCrlf at h
  split_ifs at h
  · cases h
    simp
  · cases h
    exact le_rfl

/-- Reading on to a chunk with data takes some bytes. -/
theorem cutChunk_length {needsCrlf : Bool} {bytes rest : Bytes} {size : ℕ}
    (h : cutChunk needsCrlf bytes = .ok (size + 1, rest)) : rest.length < bytes.length := by
  unfold cutChunk at h
  split at h
  · cases h
  · rename_i afterCrlf hcrlf
    split at h
    · cases h
    · rename_i line afterLine hline
      have hlt := (cutLine_length hline).trans_le (cutCrlf_length hcrlf)
      split at h
      · cases h
      · cases ht : cutTrailers maxMetadataBytes afterLine <;> rw [ht] at h <;> cases h
      · cases h
        exact hlt

/-- The data of a body and what follows the body. -/
def dechunk (needsCrlf : Bool) (bytes : Bytes) : Except IoError (Bytes × Bytes) :=
  match h : cutChunk needsCrlf bytes with
  | .error e => .error e
  | .ok (0, rest) => .ok ([], rest)
  | .ok (size + 1, rest) =>
    if rest.length < size + 1 then
      .error ⟨.unexpectedEof, "Truncated HTTP chunk"⟩
    else
      have : rest.length - (size + 1) < bytes.length := by
        have := cutChunk_length h
        omega
      (dechunk true (rest.drop (size + 1))).map fun p => (rest.take (size + 1) ++ p.1, p.2)
termination_by bytes.length

/-- The rest of a body, from within a chunk of which `remaining` bytes are left. -/
def dechunkFrom (remaining : ℕ) (needsCrlf : Bool) (bytes : Bytes) :
    Except IoError (Bytes × Bytes) :=
  if bytes.length < remaining then
    .error ⟨.unexpectedEof, "Truncated HTTP chunk"⟩
  else
    (dechunk needsCrlf (bytes.drop remaining)).map fun p => (bytes.take remaining ++ p.1, p.2)

theorem dechunkFrom_zero (needsCrlf : Bool) (bytes : Bytes) :
    dechunkFrom 0 needsCrlf bytes = dechunk needsCrlf bytes := by
  unfold dechunkFrom
  rw [if_neg (Nat.not_lt_zero _), List.drop_zero, List.take_zero]
  cases dechunk needsCrlf bytes <;> rfl

theorem dechunk_error {needsCrlf : Bool} {bytes : Bytes} {e : IoError}
    (h : cutChunk needsCrlf bytes = .error e) : dechunk needsCrlf bytes = .error e := by
  rw [dechunk]
  split <;> simp_all

theorem dechunk_last {needsCrlf : Bool} {bytes rest : Bytes}
    (h : cutChunk needsCrlf bytes = .ok (0, rest)) : dechunk needsCrlf bytes = .ok ([], rest) := by
  rw [dechunk]
  split <;> simp_all

theorem dechunk_chunk {needsCrlf : Bool} {bytes rest : Bytes} {size : ℕ} (hsize : size ≠ 0)
    (h : cutChunk needsCrlf bytes = .ok (size, rest)) :
    dechunk needsCrlf bytes = dechunkFrom size true rest := by
  rw [dechunk, dechunkFrom]
  split <;> simp_all

/-- Taking some of the bytes of a chunk. -/
theorem dechunkFrom_append (bytes rest : Bytes) {remaining : ℕ} (needsCrlf : Bool)
    (h : bytes.length ≤ remaining) :
    dechunkFrom remaining needsCrlf (bytes ++ rest) =
      (dechunkFrom (remaining - bytes.length) needsCrlf rest).map fun p => (bytes ++ p.1, p.2) := by
  unfold dechunkFrom
  by_cases hlt : rest.length < remaining - bytes.length
  · rw [if_pos hlt, if_pos (by rw [List.length_append]; omega)]
    rfl
  · rw [if_neg hlt, if_neg (by rw [List.length_append]; omega),
      List.drop_append, List.drop_eq_nil_of_le h, List.nil_append,
      List.take_append, List.take_of_length_le h]
    cases dechunk needsCrlf (rest.drop (remaining - bytes.length)) with
    | error e => rfl
    | ok p => simp [Except.map]

/-! ### What the reader does -/

/-- The error that a computation ends in, which is none that a caller would retry after. -/
def Fails {α : Type} (x : Except IoError α) (e : IoError) : Prop :=
  x = .error e ∧ e.kind ≠ .interrupted

namespace ChunkedReader

variable {c : ChunkedReader}

theorem line_spec (h : Patient c.inner.inner) (hcap : 0 < c.inner.capacity) (limit : ℕ) :
    Triple (fun t => t = c) (line limit)
      (fun l c' => ∃ inner, c' = { c with inner := inner } ∧ c.inner.Reads l inner ∧
        cutLine limit c.inner.rest = .ok (l, inner.rest))
      (fun e _ => Fails (cutLine limit c.inner.rest) e) (fun _ => False) := by
  refine Triple.bind (M := fun l c' => ∃ inner, c' = { c with inner := inner } ∧
    c.inner.Reads l inner ∧ l = BufReader.takeUntil 10 limit c.inner.rest) ?_ fun l => ?_
  · refine Triple.zoom ?_
    rintro _ rfl
    exact (BufReader.readUntil_spec 10 limit h hcap).weaken (fun _ => id)
      (fun l r ⟨hl, hreads⟩ => ⟨r, rfl, hl ▸ hreads, hl⟩) (fun _ _ => False.elim) (fun _ => id)
  · refine Triple.ofState ?_
    rintro c' ⟨inner, rfl, hreads, hl⟩
    have hdrop : c.inner.rest.drop l.length = inner.rest := by
      rw [hreads.rest, List.drop_left]
    subst hl
    unfold cutLine
    simp only [hdrop]
    refine Triple.ite (fun hsuffix => ?_) fun hsuffix => ?_
    · rw [if_pos hsuffix]
      exact Triple.ofRun ⟨inner, rfl, hreads, rfl⟩
    · rw [if_neg hsuffix]
      exact Triple.ofRun ⟨rfl, nofun⟩

theorem readCrlf_spec (h : Patient c.inner.inner) (hcap : 0 < c.inner.capacity) :
    Triple (fun t => t = c) readCrlf
      (fun _ c' => ∃ inner bytes, c' = { c with inner := inner } ∧ c.inner.Reads bytes inner ∧
        cutCrlf c.needsCrlf c.inner.rest = .ok inner.rest)
      (fun e _ => Fails (cutCrlf c.needsCrlf c.inner.rest) e) (fun _ => False) := by
  refine Triple.bindRead fun t ht => ⟨t, rfl, ?_⟩
  subst ht
  unfold cutCrlf
  by_cases hneeds : t.needsCrlf = true
  · simp only [if_pos hneeds]
    refine Triple.bind (M := fun bytes c' => ∃ inner, c' = { t with inner := inner } ∧
      t.inner.Reads bytes inner ∧ bytes.length = 2) ?_ fun bytes => ?_
    · refine Triple.zoom ?_
      rintro _ rfl
      refine (BufReader.readExact_spec h hcap 2).weaken (fun _ => id)
        (fun bytes r ⟨hreads, hlen⟩ => ⟨r, rfl, hreads, hlen⟩) ?_ (fun _ => id)
      rintro e r ⟨hlt, rfl⟩
      rw [if_pos hlt]
      exact ⟨rfl, nofun⟩
    · refine Triple.ofState ?_
      rintro c' ⟨inner, rfl, hreads, hlen⟩
      have hle : ¬t.inner.rest.length < 2 := by
        rw [hreads.rest, List.length_append]
        omega
      have htake : t.inner.rest.take 2 = bytes := by
        rw [hreads.rest, ← hlen, List.take_left]
      have hdrop : t.inner.rest.drop 2 = inner.rest := by
        rw [hreads.rest, ← hlen, List.drop_left]
      rw [if_neg hle, htake, hdrop]
      refine Triple.ite (fun hcrlf => ?_) fun hcrlf => ?_
      · rw [if_pos hcrlf]
        exact Triple.ofRun ⟨inner, bytes, rfl, hreads, rfl⟩
      · rw [if_neg hcrlf]
        exact Triple.ofRun ⟨rfl, nofun⟩
  · simp only [if_neg hneeds]
    exact Triple.ofRun ⟨t.inner, [], rfl, .refl h, rfl⟩

theorem readTrailers_spec (fuel : ℕ) (h : Patient c.inner.inner) (hcap : 0 < c.inner.capacity)
    {budget : ℕ} (hfuel : budget < fuel) :
    Triple (fun t => t = c) (readTrailers fuel budget)
      (fun _ c' => ∃ inner bytes, c' = { c with inner := inner, finished := true } ∧
        c.inner.Reads bytes inner ∧ cutTrailers budget c.inner.rest = .ok inner.rest)
      (fun e _ => Fails (cutTrailers budget c.inner.rest) e) (fun _ => False) := by
  induction fuel generalizing c budget with
  | zero => omega
  | succ fuel ih =>
    unfold readTrailers
    refine Triple.bind ((line_spec h hcap budget).weaken (fun _ => id) (fun _ _ => id) ?_
      (fun _ => id)) fun l => ?_
    · rintro e _ ⟨herror, hkind⟩
      refine ⟨?_, hkind⟩
      rw [cutTrailers]
      split <;> simp_all
    · refine Triple.ofState ?_
      rintro c' ⟨inner, rfl, hreads, hline⟩
      obtain ⟨-, hsuffix, hle, -⟩ := cutLine_eq_ok hline
      have htwo := two_le_of_suffix hsuffix
      -- a trailer takes two bytes at least, so the fuel outlasts the budget
      have htrailers : cutTrailers budget c.inner.rest =
          if l = crlf then
            .ok inner.rest
          else if 58 ∈ l.take (l.length - 2) then
            cutTrailers (budget - l.length) inner.rest
          else
            .error (invalidData "Invalid HTTP trailer") := by
        rw [cutTrailers]
        split <;> simp_all
      rw [if_neg (by omega), htrailers]
      refine Triple.ite (fun hcrlf => ?_) fun hcrlf => ?_
      · rw [if_pos hcrlf]
        exact Triple.ofRun ⟨inner, l, rfl, hreads, rfl⟩
      · rw [if_neg hcrlf]
        refine Triple.ite (fun hcolon => ?_) fun hcolon => ?_
        · rw [if_pos hcolon]
          refine (ih hreads.patient (hreads.capacity ▸ hcap) (by omega)).weaken (fun _ => id) ?_
            (fun _ _ => id) (fun _ => id)
          rintro _ c'' ⟨inner', bytes, rfl, hreads', htrailers'⟩
          exact ⟨inner', l ++ bytes, rfl, hreads.trans hreads', htrailers'⟩
        · rw [if_neg hcolon]
          exact Triple.ofRun ⟨rfl, nofun⟩

/-- What `nextChunk` does: it is at the data of a chunk, or at the end of the body. -/
structure Advances (c : ChunkedReader) (more : Bool) (c' : ChunkedReader) : Prop where
  reads : ∃ bytes, c.inner.Reads bytes c'.inner
  cut : cutChunk c.needsCrlf c.inner.rest = .ok (c'.remaining, c'.inner.rest)
  more : if more then c'.remaining ≠ 0 ∧ c'.needsCrlf = true ∧ c'.finished = c.finished
    else c'.remaining = 0 ∧ c'.finished = true

theorem nextChunk_spec (h : Patient c.inner.inner) (hcap : 0 < c.inner.capacity) :
    Triple (fun t => t = c) nextChunk (fun more c' => c.Advances more c')
      (fun e _ => Fails (cutChunk c.needsCrlf c.inner.rest) e) (fun _ => False) := by
  unfold nextChunk
  refine Triple.bind ((readCrlf_spec h hcap).weaken (fun _ => id) (fun _ _ => id) ?_
    (fun _ => id)) fun _ => ?_
  · rintro e _ ⟨herror, hkind⟩
    exact ⟨by simp only [cutChunk, herror], hkind⟩
  refine Triple.ofState ?_
  rintro c' ⟨afterCrlf, bytes, rfl, hreads, hcrlf⟩
  have hcap' : 0 < afterCrlf.capacity := hreads.capacity ▸ hcap
  refine Triple.bind ((line_spec hreads.patient hcap' maxMetadataBytes).weaken (fun _ => id)
    (fun _ _ => id) ?_ (fun _ => id)) fun l => ?_
  · rintro e _ ⟨herror, hkind⟩
    exact ⟨by simp only [cutChunk, hcrlf, herror], hkind⟩
  refine Triple.ofState ?_
  rintro c' ⟨afterLine, rfl, hreads', hline⟩
  have htotal := hreads.trans hreads'
  -- the two cuts so far, as the grammar makes them
  have hcut : cutChunk c.needsCrlf c.inner.rest =
      match chunkSize l with
      | .error e => .error e
      | .ok 0 => (cutTrailers maxMetadataBytes afterLine.rest).map fun rest => (0, rest)
      | .ok size => .ok (size, afterLine.rest) := by
    simp only [cutChunk, hcrlf, hline]
  rw [hcut]
  rcases hsize : chunkSize l with e | size
  · refine Triple.ofRun ⟨rfl, ?_⟩
    unfold chunkSize at hsize
    simp only at hsize
    split_ifs at hsize <;> cases hsize <;> exact nofun
  · rw [Prog.ofExcept_ok_bind]
    refine Triple.bind (M := fun _ c' => c' = { c with inner := afterLine, remaining := size })
      (Triple.modify _ fun s hs => by rw [hs]) fun _ => ?_
    refine Triple.ite (fun hzero => ?_) fun hzero => ?_
    -- the last chunk: the trailers are read here as well
    · subst hzero
      unfold finish
      refine Triple.bind ((readTrailers_spec _ htotal.patient (htotal.capacity ▸ hcap)
        (Nat.lt_succ_self _)).weaken (fun _ => id) (fun _ _ => id) ?_ (fun _ => id)) fun _ => ?_
      · rintro e _ ⟨herror, hkind⟩
        exact ⟨by simp only [herror]; rfl, hkind⟩
      · refine Triple.ofState ?_
        rintro c' ⟨atEnd, bytes', rfl, hreads'', htrailers⟩
        refine Triple.ofRun ⟨⟨_, htotal.trans hreads''⟩, ?_, rfl, rfl⟩
        rw [hcut, hsize]
        simp only [htrailers]
        rfl
    · unfold begin
      refine Triple.bind (M := fun _ c' => c' = { c with
        inner := afterLine, remaining := size, needsCrlf := true })
        (Triple.modify _ fun s hs => by rw [hs]) fun _ => ?_
      refine Triple.ofState ?_
      rintro _ rfl
      refine Triple.ofRun ⟨⟨_, htotal⟩, ?_, hzero, rfl, rfl⟩
      rw [hcut, hsize]
      cases size with
      | zero => exact (hzero rfl).elim
      | succ size => rfl

/-- The decoded rest of the body. -/
def value (c : ChunkedReader) : Except IoError Bytes :=
  if c.finished then .ok []
  else (dechunkFrom c.remaining c.needsCrlf c.inner.rest).map Prod.fst

theorem value_of_unfinished (h : c.finished = false) :
    c.value = (dechunkFrom c.remaining c.needsCrlf c.inner.rest).map Prod.fst := by
  simp only [value, h, Bool.false_eq_true, if_false]

/-- A reader that works and holds the value `v`, with at most `m` bytes and reads left. -/
structure Holds (c : ChunkedReader) (v : Except IoError Bytes) (m : ℕ) : Prop where
  patient : Patient c.inner.inner
  capacity : 0 < c.inner.capacity
  value : c.value = v
  size : c.inner.size ≤ m

theorem readData_spec (h : Patient c.inner.inner) (hcap : 0 < c.inner.capacity)
    (hrem : c.remaining ≠ 0) (hfin : c.finished = false) {n : ℕ} (hn : 0 < n) :
    Triple (fun t => t = c) (readData n)
      (fun bytes c' => bytes ≠ [] ∧ c'.inner.size < c.inner.size ∧
        ∃ v', Holds c' v' c'.inner.size ∧ c.value = v'.map (bytes ++ ·))
      (fun e c' => (e.kind = .interrupted ∧ c'.inner.size < c.inner.size ∧
        Holds c' c.value c'.inner.size) ∨ e.kind ≠ .interrupted ∧ c.value = .error e)
      (fun _ => False) := by
  refine Triple.bindRead fun t ht => ⟨t, rfl, ?_⟩
  subst ht
  refine Triple.bind (M := fun bytes c' => ∃ inner, c' = { t with inner := inner } ∧
    t.inner.Reads bytes inner ∧ bytes.length ≤ min t.remaining n ∧
    (bytes = [] → t.inner.rest = [])) ?_ fun bytes => ?_
  · refine Triple.zoom ?_
    rintro _ rfl
    refine (BufReader.read_spec h hcap (by omega)).weaken (fun _ => id)
      (fun bytes r ⟨hreads, hle, hend⟩ => ⟨r, rfl, hreads, hle, hend⟩) ?_ (fun _ => id)
    rintro e r ⟨hreads, hkind, hlt⟩
    refine Or.inl ⟨hkind, hlt, hreads.patient, hreads.capacity ▸ hcap, ?_, le_rfl⟩
    have hrest := hreads.rest
    rw [List.nil_append] at hrest
    rw [value_of_unfinished hfin, hrest]
    exact value_of_unfinished hfin
  · refine Triple.ofState ?_
    rintro c' ⟨inner, rfl, hreads, hle, hend⟩
    refine Triple.ite (fun hnil => ?_) fun hnil => ?_
    · refine Triple.ofRun (Or.inr ⟨nofun, ?_⟩)
      rw [value_of_unfinished hfin, hend hnil, dechunkFrom,
        if_pos (by rw [List.length_nil]; omega)]
      rfl
    · rw [if_neg (by omega : ¬t.remaining < bytes.length)]
      have hpos := List.length_pos_iff.mpr hnil
      have hsize := hreads.size
      refine Triple.ofRun ⟨hnil, by show inner.size < _; omega,
        (dechunkFrom (t.remaining - bytes.length) t.needsCrlf inner.rest).map Prod.fst,
        ⟨hreads.patient, hreads.capacity ▸ hcap, value_of_unfinished hfin, le_rfl⟩, ?_⟩
      rw [value_of_unfinished hfin, hreads.rest, dechunkFrom_append _ _ _ (by omega)]
      cases dechunkFrom (t.remaining - bytes.length) t.needsCrlf inner.rest <;> rfl

/-- Every read takes its bytes off the front of the decoded body. -/
theorem read_serves : Serves read Holds (fun c => c.finished = true) := by
  intro c v m n hholds hn
  obtain ⟨h, hcap, hv, hsize⟩ := hholds
  subst hv
  refine Triple.bindRead fun t ht => ⟨t, rfl, ?_⟩
  subst ht
  by_cases hfin : t.finished = true
  · rw [if_pos (Or.inr hfin)]
    exact Triple.ofRun (Or.inl ⟨rfl, by simp only [value, hfin, if_true], hfin⟩)
  · rw [if_neg (by rintro (h0 | h1); exacts [by omega, hfin h1])]
    have hfin' : t.finished = false := by simpa using hfin
    by_cases hrem : t.remaining = 0
    -- between two chunks: the next one is begun, and then read from
    · rw [if_pos hrem]
      have hvalue : t.value = (dechunk t.needsCrlf t.inner.rest).map Prod.fst := by
        rw [value_of_unfinished hfin', hrem, dechunkFrom_zero]
      refine Triple.bind ((nextChunk_spec h hcap).weaken (fun _ => id) (fun _ _ => id) ?_
        (fun _ => id)) fun more => ?_
      · rintro e _ ⟨herror, hkind⟩
        refine Or.inr ⟨hkind, ?_⟩
        rw [hvalue, dechunk_error herror]
        rfl
      · refine Triple.ofState fun c' hadv => ?_
        obtain ⟨bytes, hreads⟩ := hadv.reads
        have hmore := hadv.more
        cases more with
        | false =>
          obtain ⟨hzero, hdone⟩ := hmore
          refine Triple.ofRun (Or.inl ⟨rfl, ?_, hdone⟩)
          have hcut := hadv.cut
          rw [hzero] at hcut
          rw [hvalue, dechunk_last hcut]
          rfl
        | true =>
          obtain ⟨hne, hneeds, hfin''⟩ := hmore
          have hlt := hreads.size
          have heq : t.value = c'.value := by
            rw [hvalue, dechunk_chunk hne hadv.cut, value_of_unfinished (hfin''.trans hfin'),
              hneeds]
          rw [heq]
          refine (readData_spec hreads.patient (hreads.capacity ▸ hcap) hne (hfin''.trans hfin')
            hn).weaken (fun _ => id) ?_ ?_ (fun _ => id)
          · rintro bytes c'' ⟨hnil, hlt', v', hholds, hv⟩
            exact Or.inr ⟨hnil, v', c''.inner.size, by omega, hholds, hv⟩
          · rintro e c'' (⟨hkind, hlt', hholds⟩ | hfail)
            · exact Or.inl ⟨hkind, c''.inner.size, by omega, hholds⟩
            · exact Or.inr hfail
    · rw [if_neg hrem]
      refine (readData_spec h hcap hrem hfin' hn).weaken (fun _ => id) ?_ ?_ (fun _ => id)
      · rintro bytes c' ⟨hnil, hlt, v', hholds, hv⟩
        exact Or.inr ⟨hnil, v', c'.inner.size, by omega, hholds, hv⟩
      · rintro e c' (⟨hkind, hlt, hholds⟩ | hfail)
        · exact Or.inl ⟨hkind, c'.inner.size, by omega, hholds⟩
        · exact Or.inr hfail

/-- A new reader holds the decoded stream. -/
theorem new_holds {script : Script UInt8 IoError} (h : Patient script) :
    Holds (new script) ((dechunk false script.payload).map Prod.fst) script.size := by
  refine ⟨h, Nat.succ_pos 511, ?_, ?_⟩
  · show (dechunkFrom 0 false ([] ++ script.payload)).map Prod.fst = _
    rw [dechunkFrom_zero, List.nil_append]
  · show 0 + script.size ≤ script.size
    omega

end ChunkedReader

end WhatsappEsp32.Http
