import WhatsappEsp32.Ws.Client
import WhatsappEsp32.Ws.Decode

/-!
# What the reader does

One specification for each function of the reader, from a single read up to `read_frame`.  They say
two things at once: the invariant `Safe` of the client is kept however a call ends, and the bytes
that are still to be decoded, which are those held in the header and payload buffers followed by
those not read yet (`Stands`), do not change until a whole frame is taken.

* `Source.Reads`, `fill_spec`, `fillInto_spec`: bytes are taken off the front, in order;
* `Safe`, `Stands`, `Kept`, `Failed`: the invariant, and what a call may do to the client;
* `readHeader_spec`, `ensureIncoming_spec`, `fillIncoming_spec`, `takeIncoming_spec`;
* `readFrame_spec`: a call decodes what `decode` decodes.
-/

namespace WhatsappEsp32.Ws

open CrashLogic Scripted RustIo

variable {A : Arch} {ε : Type}

/-! ### Reading bytes -/

/-- Every read gives data or would block. -/
structure Polite (script : Script UInt8 ReadError) : Prop where
  nonEmpty : script.NonEmpty
  wouldBlock : ∀ e, Event.fails e ∈ script → isWouldBlock e.error = true

theorem Polite.leaves {script rest : Script UInt8 ReadError} {bytes : Bytes} (h : Polite script)
    (hrest : script.Leaves bytes rest) : Polite rest :=
  ⟨hrest.nonEmpty h.nonEmpty, fun e he => h.wouldBlock e (hrest.fails e he)⟩

namespace Source

/-- The position in the handshake leftover is in range. -/
structure Ok (A : Arch) (s : Source) : Prop where
  pos_le : s.pendingPos ≤ s.pending.length
  length_le : s.pending.length ≤ A.usizeMax

/-- The number of reads and bytes that are left. -/
def size (s : Source) : ℕ := (s.pending.drop s.pendingPos).length + s.stream.inbound.size

/-- `bytes` have been taken off the front. -/
structure Reads (A : Arch) (s : Source) (bytes : Bytes) (s' : Source) : Prop where
  ok : s'.Ok A
  rest : s.rest = bytes ++ s'.rest
  size : s'.size + bytes.length ≤ s.size
  polite : Polite s.stream.inbound → Polite s'.stream.inbound

theorem Reads.refl {s : Source} (h : s.Ok A) : s.Reads A [] s := ⟨h, rfl, le_rfl, id⟩

theorem Reads.trans {s s' s'' : Source} {bytes bytes' : Bytes} (h : s.Reads A bytes s')
    (h' : s'.Reads A bytes' s'') : s.Reads A (bytes ++ bytes') s'' where
  ok := h'.ok
  rest := by rw [h.rest, h'.rest, List.append_assoc]
  size := by
    have := h.size
    have := h'.size
    rw [List.length_append]
    omega
  polite := h'.polite ∘ h.polite

/-- Bytes of the handshake leftover are taken by moving the position. -/
theorem Ok.skip {s : Source} (h : s.Ok A) {n : ℕ} (hn : s.pendingPos + n ≤ s.pending.length) :
    s.Reads A ((s.pending.drop s.pendingPos).take n) { s with pendingPos := s.pendingPos + n } where
  ok := ⟨hn, h.length_le⟩
  rest := by
    simp only [Source.rest, ← List.append_assoc]
    rw [← List.drop_drop, List.take_append_drop]
  size := by
    simp only [Source.size, List.length_drop, List.length_take]
    omega
  polite := id

/-- The error of a read: the peer has no data for now, or it has closed. -/
def Blocked (s : Source) (e : IoError) (s' : Source) : Prop :=
  isWouldBlock e = true ∧ s'.size < s.size ∨ e = connectionClosed ∧ s'.rest = []

theorem Reads.blocked {s s' s'' : Source} {bytes : Bytes} {e : IoError} (h : s.Reads A bytes s')
    (h' : s'.Blocked e s'') : s.Blocked e s'' := by
  refine h'.imp (fun ⟨he, hlt⟩ => ⟨he, ?_⟩) id
  have := h.size
  omega

end Source

theorem checkedAdd_of_le {σ : Type} {a b : ℕ} (h : a + b ≤ A.usizeMax) :
    (checkedAdd A a b : Prog σ ε ℕ) = pure (a + b) := if_pos h

theorem readStream_spec {want : ℕ} (hwant : 0 < want) {s : Source} (h : s.Ok A)
    (hleft : s.pending.drop s.pendingPos = []) :
    Triple (fun t => t = s) (readStream want)
      (fun bytes s' => s.Reads A bytes s' ∧ bytes ≠ [] ∧ bytes.length ≤ want)
      (fun e s' => s.Reads A [] s' ∧ (Polite s.stream.inbound → s.Blocked e s'))
      (fun _ => False) := by
  -- what the socket leaves of its script is left of the source
  have hreads : ∀ {bytes : Bytes} {rest : Script UInt8 ReadError},
      s.stream.inbound.Leaves bytes rest →
      s.Reads A bytes { s with stream := { s.stream with inbound := rest } } := by
    intro bytes rest hrest
    refine ⟨⟨h.pos_le, h.length_le⟩, ?_, ?_, fun hp => hp.leaves hrest⟩
    · simp only [Source.rest, hleft, List.nil_append, hrest.payload]
    · simp only [Source.size, hleft, List.length_nil, zero_add]
      exact hrest.size
  refine Triple.ofRun ?_
  unfold readStream Socket.read
  rcases s.stream.inbound.read_cases hwant with ⟨rest, hread, hrest, hend⟩ |
    ⟨bytes, rest, hread, hne, hlen, hrest⟩ | ⟨e, rest, hread, hmem, hrest, hlt⟩
  · rw [hread]
    refine ⟨hreads hrest, fun hp => Or.inr ⟨rfl, ?_⟩⟩
    have hnil := hrest.payload
    rw [hend hp.nonEmpty] at hnil
    simpa [Source.rest, hleft] using hnil.symm
  · rw [hread]
    cases bytes with
    | nil => exact (hne rfl).elim
    | cons b bytes => exact ⟨hreads hrest, hne, hlen⟩
  · rw [hread]
    refine ⟨hreads hrest, fun hp => Or.inl ⟨hp.wouldBlock e hmem, ?_⟩⟩
    simpa [Source.size, hleft] using hlt

/-- A read takes at least one byte off the front, or reports that there is none. -/
theorem fill_spec {want : ℕ} (hwant : 0 < want) {s : Source} (h : s.Ok A) :
    Triple (fun t => t = s) (fill A want)
      (fun bytes s' => s.Reads A bytes s' ∧ bytes ≠ [] ∧ bytes.length ≤ want)
      (fun e s' => s.Reads A [] s' ∧ (Polite s.stream.inbound → s.Blocked e s'))
      (fun _ => False) := by
  refine Triple.bindRead fun t ht => ⟨t, rfl, ?_⟩
  subst ht
  rw [if_neg (by have := h.pos_le; omega)]
  by_cases hleft : t.pending.drop t.pendingPos = []
  · rw [if_pos hleft]
    exact readStream_spec hwant h hleft
  · rw [if_neg hleft]
    have hlen : (t.pending.drop t.pendingPos).length = t.pending.length - t.pendingPos :=
      List.length_drop
    have hpos : 0 < (t.pending.drop t.pendingPos).length := List.length_pos_iff.mpr hleft
    have hle := h.length_le
    simp only [checkedAdd_of_le (show t.pendingPos +
      min (t.pending.drop t.pendingPos).length want ≤ A.usizeMax by omega)]
    refine Triple.ofRun ⟨h.skip (by omega), ?_, ?_⟩
    · intro hnil
      have := congrArg List.length hnil
      simp only [List.length_take, List.length_nil] at this
      omega
    · show (List.take _ _).length ≤ want
      rw [List.length_take]
      omega

theorem length_writeAt {buf : Bytes} {pos : ℕ} {bytes : Bytes}
    (h : pos + bytes.length ≤ buf.length) : (writeAt buf pos bytes).length = buf.length := by
  simp only [writeAt, List.length_append, List.length_take, List.length_drop]
  omega

/-- What has been written stays in front of what is written next. -/
theorem take_writeAt {buf : Bytes} {pos : ℕ} {bytes : Bytes} (h : pos ≤ buf.length) :
    (writeAt buf pos bytes).take (pos + bytes.length) = buf.take pos ++ bytes := by
  have hlen : (buf.take pos ++ bytes).length = pos + bytes.length := by
    rw [List.length_append, List.length_take]
    omega
  unfold writeAt
  rw [← hlen, List.take_left]

/-- What `fill_into` does to its buffer, and how it ends. -/
structure Filled (A : Arch) (s : Source) (payload : Bytes) (filled : ℕ)
    (r : Except IoError Unit × Bytes × ℕ) (s' : Source) : Prop where
  reads : ∃ taken, s.Reads A taken s' ∧ r.2.1.take r.2.2 = payload.take filled ++ taken
  length_eq : r.2.1.length = payload.length
  le : filled ≤ r.2.2 ∧ r.2.2 ≤ payload.length
  full : r.1 = .ok () → r.2.2 = payload.length
  failed : ∀ e, r.1 = .error e → r.2.2 < payload.length ∧
    (Polite s.stream.inbound → s.Blocked e s')

/-- A full buffer is left alone. -/
theorem Filled.done {s : Source} {payload : Bytes} {filled : ℕ} (h : s.Ok A)
    (hfull : filled = payload.length) :
    Filled A s payload filled (.ok (), payload, filled) s where
  reads := ⟨[], .refl h, (List.append_nil _).symm⟩
  length_eq := rfl
  le := ⟨le_rfl, hfull.le⟩
  full _ := hfull
  failed _ he := nomatch he

theorem fillInto_spec (fuel : ℕ) {payload : Bytes} {filled : ℕ} {s : Source} (h : s.Ok A)
    (hfilled : filled ≤ payload.length) (hlen : payload.length ≤ A.usizeMax)
    (hfuel : payload.length - filled ≤ fuel) :
    Triple (fun t => t = s) (fillInto A fuel payload filled : Prog Source ε _)
      (fun r s' => Filled A s payload filled r s') (fun _ _ => False) (fun _ => False) := by
  induction fuel generalizing payload filled s with
  | zero =>
    unfold fillInto
    rw [if_neg (by omega)]
    exact Triple.ofRun (.done h (by omega))
  | succ fuel ih =>
    unfold fillInto
    by_cases hlt : filled < payload.length
    · rw [if_pos hlt]
      refine Triple.bindAttempt (fill_spec (by omega) h) (fun e => ?_) fun bytes => ?_
      · refine Triple.pure _ fun s' ⟨hreads, hblocked⟩ => ?_
        refine ⟨⟨[], hreads, (List.append_nil _).symm⟩, rfl, ⟨le_rfl, hfilled⟩,
          (fun hok => nomatch hok), fun e' he => ?_⟩
        cases he
        exact ⟨hlt, hblocked⟩
      · refine Triple.ofState fun s' ⟨hreads, hne, hle⟩ => ?_
        have hpos : 0 < bytes.length := List.length_pos_iff.mpr hne
        have hlength : (writeAt payload filled bytes).length = payload.length :=
          length_writeAt (by omega)
        simp only [checkedAdd_of_le (show filled + bytes.length ≤ A.usizeMax by omega)]
        refine (ih hreads.ok (by omega) (by omega) (by omega)).weaken (fun _ => id) ?_
          (fun _ _ => id) (fun _ => id)
        rintro r s'' ⟨⟨taken, htaken, htake⟩, hlen', hle', hfull, hfailed⟩
        rw [take_writeAt (by omega), List.append_assoc] at htake
        refine ⟨⟨_, hreads.trans htaken, htake⟩, by omega, by omega,
          fun hok => by rw [hfull hok, hlength], fun e he => ?_⟩
        obtain ⟨hlt', hblocked⟩ := hfailed e he
        exact ⟨by omega, fun hp => hreads.blocked (hblocked (hreads.polite hp))⟩
    · rw [if_neg hlt]
      exact Triple.ofRun (.done h (by omega))

/-! ### The header -/

theorem maxHeader_le (A : Arch) : maxHeader ≤ A.usizeMax := by
  have := A.u32_le
  unfold maxHeader
  omega

namespace WsClient

variable {s s' s'' : WsClient A}

/-- The part of the header that has arrived. -/
def got (s : WsClient A) : Bytes := s.header.take s.headerLen

/-- Some more of the header has been read, and nothing else has changed. -/
structure Grew (s s' : WsClient A) : Prop where
  reads : ∃ bytes, s.source.Reads A bytes s'.source ∧ s'.got = s.got ++ bytes
  length_header : s'.header.length = maxHeader
  headerLen_le : s'.headerLen ≤ maxHeader
  limits : s'.limits = s.limits
  fragments : s'.fragments = s.fragments
  incoming : s'.incoming = s.incoming

/-- The buffer of the header is as long as the longest header. -/
structure HeaderOk (s : WsClient A) : Prop where
  source : s.source.Ok A
  length_header : s.header.length = maxHeader
  headerLen_le : s.headerLen ≤ maxHeader

theorem HeaderOk.length_got (h : s.HeaderOk) : s.got.length = s.headerLen := by
  have := h.length_header
  have := h.headerLen_le
  rw [got, List.length_take]
  omega

theorem Grew.headerOk (h : Grew s s') : s'.HeaderOk := by
  obtain ⟨bytes, hreads, -⟩ := h.reads
  exact ⟨hreads.ok, h.length_header, h.headerLen_le⟩

theorem HeaderOk.grew (h : s.HeaderOk) : Grew s s :=
  ⟨⟨[], .refl h.source, (List.append_nil _).symm⟩, h.length_header, h.headerLen_le, rfl, rfl, rfl⟩

theorem Grew.trans (h : Grew s s') (h' : Grew s' s'') : Grew s s'' := by
  obtain ⟨bytes, hreads, hgot⟩ := h.reads
  obtain ⟨bytes', hreads', hgot'⟩ := h'.reads
  refine ⟨⟨bytes ++ bytes', hreads.trans hreads', ?_⟩, h'.length_header, h'.headerLen_le,
    h'.limits.trans h.limits, h'.fragments.trans h.fragments, h'.incoming.trans h.incoming⟩
  rw [hgot', hgot, List.append_assoc]

/-- The bytes that are not decoded yet stay the same. -/
theorem Grew.unread (h : Grew s s') : s.got ++ s.source.rest = s'.got ++ s'.source.rest := by
  obtain ⟨bytes, hreads, hgot⟩ := h.reads
  rw [hgot, hreads.rest, List.append_assoc]

/-- A call that reports would-block has used up a read. -/
def Waits (s s' : WsClient A) : Prop :=
  Polite s.source.stream.inbound → s'.source.size < s.source.size

/-- A call that reports an error of the stream has met its end. -/
def Closes (s : WsClient A) (e : Failure) (s' : WsClient A) : Prop :=
  e ≠ .capacityOverflow ∧
    (Polite s.source.stream.inbound → e = .io connectionClosed ∧ s'.source.rest = [])

theorem Grew.waits (h : Grew s s') (h' : Waits s' s'') : Waits s s'' := by
  obtain ⟨bytes, hreads, -⟩ := h.reads
  intro hp
  have := h' (hreads.polite hp)
  have := hreads.size
  omega

theorem Grew.closes {e : Failure} (h : Grew s s') (h' : Closes s' e s'') : Closes s e s'' := by
  obtain ⟨bytes, hreads, -⟩ := h.reads
  exact ⟨h'.1, fun hp => h'.2 (hreads.polite hp)⟩

/-- A read changes the source of the client and nothing else. -/
theorem onSource_spec {α : Type} {p : Prog Source ε α} {Q : α → Source → Prop}
    {E : ε → Source → Prop} (h : Triple (fun t => t = s.source) p Q E (fun _ => False)) :
    Triple (fun t => t = s) (onSource p)
      (fun a s' => ∃ source, s' = { s with source := source } ∧ Q a source)
      (fun e s' => ∃ source, s' = { s with source := source } ∧ E e source) (fun _ => False) := by
  refine Triple.zoom fun t ht => ?_
  subst ht
  exact h.weaken (fun _ => id) (fun _ source hQ => ⟨source, rfl, hQ⟩)
    (fun _ source hE => ⟨source, rfl, hE⟩) (fun _ => id)

/-- How an error of the stream is passed on. -/
theorem blocked_spec {e : IoError} {t : WsClient A}
    (h : Polite s.source.stream.inbound → s.source.Blocked e t.source) :
    Triple (fun s' => s' = t) (blocked e)
      (fun progress s' => progress = false ∧ s' = t ∧ Waits s t)
      (fun e s' => s' = t ∧ Closes s e t) (fun _ => False) := by
  unfold blocked
  by_cases he : isWouldBlock e = true
  · rw [if_pos he]
    refine Triple.ofRun ⟨rfl, rfl, fun hp => ?_⟩
    rcases h hp with ⟨-, hlt⟩ | ⟨rfl, -⟩
    · exact hlt
    · cases he
  · rw [if_neg he]
    refine Triple.ofRun ⟨rfl, (fun hov => nomatch hov), fun hp => ?_⟩
    rcases h hp with ⟨hb, -⟩ | ⟨rfl, hrest⟩
    · exact (he hb).elim
    · exact ⟨rfl, hrest⟩

theorem readIntoHeader_spec {total : ℕ} (h : s.HeaderOk) (hlt : s.headerLen < total)
    (htotal : total ≤ maxHeader) :
    Triple (fun t => t = s) (readIntoHeader total)
      (fun progress s' => Grew s s' ∧ if progress then
        s.headerLen < s'.headerLen ∧ s'.headerLen ≤ total
        else s'.headerLen = s.headerLen ∧ Waits s s')
      (fun e s' => Grew s s' ∧ s'.headerLen = s.headerLen ∧ Closes s e s') (fun _ => False) := by
  refine Triple.bindRead fun t ht => ⟨t, rfl, ?_⟩
  subst ht
  have hlength := h.length_header
  rw [if_neg (by omega)]
  refine Triple.bindAttempt (onSource_spec (fill_spec (by omega) h.source)) (fun e => ?_)
    fun bytes => ?_
  · refine Triple.ofState fun s' ⟨source, hs', hreads, hblocked⟩ => ?_
    have hgrew : Grew t s' := by
      subst hs'
      exact ⟨⟨[], hreads, (List.append_nil _).symm⟩, hlength, h.headerLen_le, rfl, rfl, rfl⟩
    have hlen : s'.headerLen = t.headerLen := by rw [hs']
    refine (blocked_spec (s := t) (t := s') ?_).weaken (fun _ => id) ?_ ?_ (fun _ => id)
    · subst hs'
      exact hblocked
    · rintro _ _ ⟨rfl, rfl, hwaits⟩
      exact ⟨hgrew, hlen, hwaits⟩
    · rintro e _ ⟨rfl, hcloses⟩
      exact ⟨hgrew, hlen, hcloses⟩
  · refine Triple.ofState fun s' ⟨source, hs', hreads, hne, hle⟩ => ?_
    subst hs'
    have hpos : 0 < bytes.length := List.length_pos_iff.mpr hne
    have hfits := maxHeader_le A
    -- the header has ten bytes, so the sum is far from an overflow
    simp only [checkedAdd_of_le (show t.headerLen + bytes.length ≤ A.usizeMax by omega)]
    refine Triple.ofRun ⟨⟨⟨bytes, hreads, ?_⟩, ?_, ?_, rfl, rfl, rfl⟩, ?_⟩
    · exact take_writeAt (show t.headerLen ≤ t.header.length by omega)
    · exact (length_writeAt (show t.headerLen + bytes.length ≤ t.header.length by omega)).trans
        hlength
    · show t.headerLen + bytes.length ≤ maxHeader
      omega
    · show t.headerLen < t.headerLen + bytes.length ∧ t.headerLen + bytes.length ≤ total
      omega

theorem fillHeader_spec {total : ℕ} (fuel : ℕ) (h : s.HeaderOk) (htotal : total ≤ maxHeader)
    (hfuel : total - s.headerLen ≤ fuel) :
    Triple (fun t => t = s) (fillHeader total fuel)
      (fun complete s' => Grew s s' ∧ if complete then s'.headerLen = max total s.headerLen
        else s'.headerLen < total ∧ Waits s s')
      (fun e s' => Grew s s' ∧ s'.headerLen < total ∧ Closes s e s') (fun _ => False) := by
  induction fuel generalizing s with
  | zero =>
    refine Triple.bindRead fun t ht => ⟨t, rfl, ?_⟩
    subst ht
    rw [if_neg (by omega)]
    refine Triple.ofRun ⟨h.grew, ?_⟩
    show t.headerLen = _
    omega
  | succ fuel ih =>
    refine Triple.bindRead fun t ht => ⟨t, rfl, ?_⟩
    subst ht
    by_cases hlt : t.headerLen < total
    · rw [if_pos hlt]
      refine Triple.bind ((readIntoHeader_spec h hlt htotal).weaken (fun _ => id)
        (fun _ _ => id) (fun e s' ⟨hgrew, hlen, hcloses⟩ => ⟨hgrew, by omega, hcloses⟩)
        (fun _ => id)) fun progress => ?_
      cases progress with
      | false =>
        refine Triple.pure _ fun s' ⟨hgrew, hlen, hwaits⟩ => ⟨hgrew, ?_, hwaits⟩
        show s'.headerLen < total
        omega
      | true =>
        refine Triple.ofState fun s' ⟨hgrew, hmore, hle⟩ => ?_
        refine (ih hgrew.headerOk (by omega)).weaken (fun _ => id) ?_ ?_ (fun _ => id)
        · rintro complete s'' ⟨hgrew', hend⟩
          refine ⟨hgrew.trans hgrew', ?_⟩
          cases complete with
          | true =>
            show s''.headerLen = _
            have : s''.headerLen = max total s'.headerLen := hend
            omega
          | false => exact ⟨hend.1, hgrew.waits hend.2⟩
        · rintro e s'' ⟨hgrew', hlen, hcloses⟩
          exact ⟨hgrew.trans hgrew', hlen, hgrew.closes hcloses⟩
    · rw [if_neg hlt]
      refine Triple.ofRun ⟨h.grew, ?_⟩
      show t.headerLen = _
      omega

/-- What has been received of a message is within the limits. -/
structure PartialOk (limits : Limits A) (fragment : Partial) : Prop where
  le_message : fragment.buf.length ≤ limits.maxMessageSize
  le_isize : fragment.buf.length ≤ A.isizeMax

/-- The payload buffer was made for a header that has passed all checks, and is not overfull. -/
structure IncomingOk (limits : Limits A) (fragments : Option Partial) (inc : Incoming) : Prop where
  parsed : ∃ head, parseHead limits fragments head =
    .ok (⟨inc.fin, inc.opcode, inc.payload.length⟩, [])
  filled_le : inc.filled ≤ inc.payload.length

theorem IncomingOk.checked {limits : Limits A} {fragments : Option Partial} {inc : Incoming}
    (h : IncomingOk limits fragments inc) :
    checkFrame limits fragments inc.fin inc.opcode inc.payload.length = .ok () ∧
      inc.payload.length ≤ A.isizeMax := by
  obtain ⟨head, hhead⟩ := h.parsed
  obtain ⟨b0, b1, tail, -, -, -, hof⟩ := parseHead_eq_ok hhead
  exact headOf_eq_ok hof

/-- The invariant of the client. -/
structure Safe (s : WsClient A) : Prop where
  headerOk : s.HeaderOk
  headerLen_le : ∀ b0 b1 tail, s.got = b0 :: b1 :: tail → s.headerLen ≤ headerTotal b1
  idle : s.incoming.isSome → s.headerLen = 0
  incoming : ∀ inc, s.incoming = some inc → IncomingOk s.limits s.fragments inc
  fragments : ∀ fragment, s.fragments = some fragment → PartialOk s.limits fragment

/-- The bytes to decode next: what the buffers hold of the current frame, and the rest. -/
inductive Stands (s : WsClient A) : Bytes → Prop
  | header (h : s.incoming = none) : Stands s (s.got ++ s.source.rest)
  | payload {inc : Incoming} {head : Bytes} (h : s.incoming = some inc)
      (hhead : parseHead s.limits s.fragments head =
        .ok (⟨inc.fin, inc.opcode, inc.payload.length⟩, [])) :
      Stands s (head ++ (inc.payload.take inc.filled ++ s.source.rest))

/-- A client is always somewhere in a byte stream. -/
theorem Safe.exists_stands (h : s.Safe) : ∃ bytes, s.Stands bytes := by
  cases hinc : s.incoming with
  | none => exact ⟨_, .header hinc⟩
  | some inc =>
    obtain ⟨head, hhead⟩ := (h.incoming inc hinc).parsed
    exact ⟨_, .payload hinc hhead⟩

/-- The call has made some progress on the current frame, or none. -/
structure Kept (s : WsClient A) (bytes : Bytes) (s' : WsClient A) : Prop where
  safe : s'.Safe
  stands : s'.Stands bytes
  limits : s'.limits = s.limits
  fragments : s'.fragments = s.fragments
  reads : ∃ taken, s.source.Reads A taken s'.source

/-- The call has failed on the current frame. -/
structure Failed (s : WsClient A) (bytes : Bytes) (e : Failure) (s' : WsClient A) : Prop where
  safe : s'.Safe
  limits : s'.limits = s.limits
  stop : Polite s.source.stream.inbound → nextFrame s.limits s.fragments bytes = .stop (some e)
  overflow : e = .capacityOverflow →
    A.isizeMax < s.limits.maxFrameSize ∨ A.isizeMax < s.limits.maxMessageSize
  atEnd : bytes = [] → s'.Stands [] ∧ s'.fragments = s.fragments

theorem Kept.trans {bytes : Bytes} (h : Kept s bytes s') (h' : Kept s' bytes s'') :
    Kept s bytes s'' := by
  obtain ⟨taken, hreads⟩ := h.reads
  obtain ⟨taken', hreads'⟩ := h'.reads
  exact ⟨h'.safe, h'.stands, h'.limits.trans h.limits, h'.fragments.trans h.fragments,
    _, hreads.trans hreads'⟩

theorem Kept.failed {bytes : Bytes} {e : Failure} (h : Kept s bytes s')
    (h' : Failed s' bytes e s'') : Failed s bytes e s'' := by
  obtain ⟨taken, hreads⟩ := h.reads
  refine ⟨h'.safe, h'.limits.trans h.limits, fun hp => ?_, ?_, fun hnil => ?_⟩
  · rw [← h.limits, ← h.fragments]
    exact h'.stop (hreads.polite hp)
  · rw [← h.limits]
    exact h'.overflow
  · rw [← h.fragments]
    exact h'.atEnd hnil

theorem Kept.waits {bytes : Bytes} (h : Kept s bytes s') (h' : Waits s' s'') : Waits s s'' := by
  obtain ⟨taken, hreads⟩ := h.reads
  intro hp
  have := h' (hreads.polite hp)
  have := hreads.size
  omega

/-- The header has grown, and is not longer than it should be. -/
theorem Safe.grew (h : s.Safe) (hnone : s.incoming = none) (hgrew : Grew s s')
    (hle : ∀ b0 b1 tail, s'.got = b0 :: b1 :: tail → s'.headerLen ≤ headerTotal b1) :
    Kept s (s.got ++ s.source.rest) s' := by
  obtain ⟨bytes, hreads, -⟩ := hgrew.reads
  have hnone' : s'.incoming = none := hgrew.incoming.trans hnone
  refine ⟨⟨hgrew.headerOk, hle, ?_, ?_, ?_⟩, ?_, hgrew.limits, hgrew.fragments, _, hreads⟩
  · simp [hnone']
  · simp [hnone']
  · rw [hgrew.limits, hgrew.fragments]
    exact h.fragments
  · rw [hgrew.unread]
    exact .header hnone'

/-- The stream has ended inside the header. -/
theorem Kept.closes {e : Failure} (h : Kept s (s.got ++ s.source.rest) s') (hgrew : Grew s s')
    (hcloses : Closes s e s')
    (hparse : parseHead s.limits s.fragments s'.got = .error (some (.io connectionClosed))) :
    Failed s (s.got ++ s.source.rest) e s' := by
  refine ⟨h.safe, h.limits, fun hp => ?_, fun hov => (hcloses.1 hov).elim, fun hnil => ?_⟩
  · obtain ⟨rfl, hrest⟩ := hcloses.2 hp
    rw [hgrew.unread, hrest, List.append_nil]
    exact nextFrame_of_error hparse
  · rw [← hnil]
    exact ⟨h.stands, h.fragments⟩

/-- The part of `read_header` after the header is complete only looks at the header. -/
theorem finishHeader_run (b0 b1 : UInt8) (s : WsClient A) :
    finishHeader b0 b1 s = (match headOf s.limits s.fragments b0 b1 s.header with
      | .ok head => .ok (some ⟨head.fin, head.opcode, List.replicate head.len 0, 0⟩)
      | .error (some e) => .error e
      | .error none => .halted, { s with headerLen := 0 }) := by
  unfold finishHeader headOf
  simp only [Prog.bind_run, Prog.modify_run, Prog.get_run]
  cases declaredLen A b1 s.header with
  | none => rfl
  | some r =>
    cases r with
    | error e => rfl
    | ok len =>
      simp only
      cases checkFrame s.limits s.fragments (decide (b0 &&& 0x80 ≠ 0)) (b0 &&& 0x0F) len with
      | error e => rfl
      | ok u =>
        simp only
        split_ifs <;> rfl

/-- What reading a header leads to: a frame to receive, or a header that is still incomplete. -/
def HeaderRead (s : WsClient A) (r : Option Incoming) (s' : WsClient A) : Prop :=
  match r with
  | some inc => Kept s (s.got ++ s.source.rest) { s' with incoming := some inc }
  | none => Kept s (s.got ++ s.source.rest) s' ∧ Waits s s'

theorem finishHeader_spec {b0 b1 : UInt8} {tail : Bytes} (h : s.Safe)
    (hgot : s.got = b0 :: b1 :: tail) (hstart : checkStart b0 b1 = .ok ())
    (hlen : s.headerLen = headerTotal b1) :
    Triple (fun t => t = s) (finishHeader b0 b1) (fun r s' => HeaderRead s r s')
      (fun e s' => Failed s (s.got ++ s.source.rest) e s') (fun _ => False) := by
  refine Triple.ofRun ?_
  have hok := h.headerOk
  have htotal : (b0 :: b1 :: tail).length = headerTotal b1 := by
    rw [← hgot, hok.length_got, hlen]
  -- the bytes of the buffer behind the header do not matter
  have hof : headOf s.limits s.fragments b0 b1 s.header =
      headOf s.limits s.fragments b0 b1 (b0 :: b1 :: tail) := by
    rw [← List.take_append_drop s.headerLen s.header]
    change headOf _ _ _ _ (s.got ++ _) = _
    rw [hgot, headOf_append _ _ _ htotal.ge]
  have hparse := parseHead_complete s.limits s.fragments hstart htotal
  have hsafe : Safe { s with headerLen := 0 } := by
    refine ⟨⟨hok.source, hok.length_header, Nat.zero_le _⟩, ?_, fun _ => rfl, h.incoming,
      h.fragments⟩
    intro b0 b1 tail _
    exact Nat.zero_le _
  rw [finishHeader_run, hof]
  cases hhead : headOf s.limits s.fragments b0 b1 (b0 :: b1 :: tail) with
  | error e =>
    have hstop : nextFrame s.limits s.fragments (s.got ++ s.source.rest) = .stop e := by
      rw [hgot]
      refine nextFrame_of_error ?_
      rw [hparse, hhead]
      rfl
    cases e with
    | none => exact (headOf_ne_panic htotal.ge hhead).elim
    | some e =>
      refine ⟨hsafe, rfl, fun _ => hstop, fun hov => ?_, fun hnil => ?_⟩
      · subst hov
        exact Or.inl (headOf_overflow hhead)
      · rw [hgot] at hnil
        cases hnil
  | ok head =>
    have hnil := hparse []
    rw [hhead, List.append_nil] at hnil
    have hkept : Kept s (s.got ++ s.source.rest) { s with
        headerLen := 0
        incoming := some ⟨head.fin, head.opcode, List.replicate head.len 0, 0⟩ } := by
      refine ⟨⟨⟨hok.source, hok.length_header, Nat.zero_le _⟩, hsafe.headerLen_le, fun _ => rfl, ?_,
        h.fragments⟩, ?_, rfl, rfl, [], .refl hok.source⟩
      · rintro inc ⟨⟩
        refine ⟨⟨b0 :: b1 :: tail, ?_⟩, Nat.zero_le _⟩
        simp only [List.length_replicate]
        exact hnil
      · rw [hgot]
        refine @Stands.payload A _ ⟨head.fin, head.opcode, List.replicate head.len 0, 0⟩ _ rfl ?_
        simp only [List.length_replicate]
        exact hnil
    exact hkept

theorem Grew.got_cons {b0 b1 : UInt8} {tail : Bytes} (h : Grew s s')
    (hgot : s.got = b0 :: b1 :: tail) : ∃ tail', s'.got = b0 :: b1 :: tail' := by
  obtain ⟨bytes, -, hgot'⟩ := h.reads
  exact ⟨tail ++ bytes, by rw [hgot', hgot]; rfl⟩

/-- What is read of the header by a part of `read_header` is read by the whole. -/
theorem Kept.headerRead {r : Option Incoming} (h : Kept s (s.got ++ s.source.rest) s')
    (hgrew : Grew s s') (h' : HeaderRead s' r s'') : HeaderRead s r s'' := by
  unfold HeaderRead at h' ⊢
  cases r with
  | none =>
    rw [← hgrew.unread] at h'
    exact ⟨h.trans h'.1, h.waits h'.2⟩
  | some inc =>
    rw [← hgrew.unread] at h'
    exact h.trans h'

theorem continueHeader_spec {b0 b1 : UInt8} {tail : Bytes} (h : s.Safe) (hnone : s.incoming = none)
    (hgot : s.got = b0 :: b1 :: tail) :
    Triple (fun t => t = s) continueHeader (fun r s' => HeaderRead s r s')
      (fun e s' => Failed s (s.got ++ s.source.rest) e s') (fun _ => False) := by
  obtain ⟨more, hheader⟩ : ∃ more, s.header = b0 :: b1 :: more := by
    refine ⟨tail ++ s.header.drop s.headerLen, ?_⟩
    rw [← List.take_append_drop s.headerLen s.header]
    change s.got ++ _ = _
    rw [hgot, List.take_append_drop]
    rfl
  refine Triple.bindRead fun t ht => ⟨t, rfl, ?_⟩
  subst ht
  simp only [hheader]
  cases hstart : checkStart b0 b1 with
  | error e =>
    refine Triple.ofRun ⟨h, rfl, fun _ => ?_, (fun hov => nomatch hov), fun hnil => ?_⟩
    · rw [hgot]
      exact nextFrame_of_error (parseHead_start_error hstart)
    · rw [hgot] at hnil
      cases hnil
  | ok u =>
    have htotal := headerTotal_le b1
    have hlen := h.headerLen_le b0 b1 tail hgot
    -- the header never grows beyond what its second byte announces
    have hkept : ∀ s', Grew t s' → s'.headerLen ≤ headerTotal b1 →
        Kept t (t.got ++ t.source.rest) s' := by
      intro s' hgrew hle
      obtain ⟨tail', htail'⟩ := hgrew.got_cons hgot
      refine h.grew hnone hgrew fun c0 c1 ctail hc => ?_
      rw [htail'] at hc
      cases hc
      exact hle
    refine Triple.bind ((fillHeader_spec (headerTotal b1) h.headerOk htotal (by omega)).weaken
      (fun _ => id) (fun _ _ => id) ?_ (fun _ => id)) fun complete => ?_
    · rintro e s' ⟨hgrew, hlt, hcloses⟩
      obtain ⟨tail', htail'⟩ := hgrew.got_cons hgot
      refine (hkept s' hgrew hlt.le).closes hgrew hcloses ?_
      rw [htail']
      refine parseHead_short hstart ?_
      rwa [← htail', hgrew.headerOk.length_got]
    · refine Triple.ofState fun s' ⟨hgrew, hend⟩ => ?_
      obtain ⟨tail', htail'⟩ := hgrew.got_cons hgot
      cases complete with
      | false => exact Triple.ofRun ⟨hkept s' hgrew hend.1.le, hend.2⟩
      | true =>
        have hfull : s'.headerLen = headerTotal b1 := by
          have : s'.headerLen = max (headerTotal b1) t.headerLen := hend
          omega
        have hkept' := hkept s' hgrew hfull.le
        refine (finishHeader_spec hkept'.safe htail' hstart hfull).weaken (fun _ => id)
          (fun r s'' h' => hkept'.headerRead hgrew h') (fun e s'' h' => ?_) (fun _ => id)
        rw [← hgrew.unread] at h'
        exact hkept'.failed h'

theorem readHeader_spec (h : s.Safe) (hnone : s.incoming = none) :
    Triple (fun t => t = s) readHeader (fun r s' => HeaderRead s r s')
      (fun e s' => Failed s (s.got ++ s.source.rest) e s') (fun _ => False) := by
  -- before two bytes are there, nothing is known about the header
  have hkept : ∀ s', Grew s s' → s'.headerLen < 2 → Kept s (s.got ++ s.source.rest) s' := by
    intro s' hgrew hlt
    refine h.grew hnone hgrew fun b0 b1 tail hgot => ?_
    have hlength := hgrew.headerOk.length_got
    rw [hgot, List.length_cons, List.length_cons] at hlength
    omega
  refine Triple.bind ((fillHeader_spec 2 h.headerOk (by decide) (by omega)).weaken
    (fun _ => id) (fun _ _ => id) ?_ (fun _ => id)) fun started => ?_
  · rintro e s' ⟨hgrew, hlt, hcloses⟩
    refine (hkept s' hgrew hlt).closes hgrew hcloses (parseHead_lt_two ?_)
    rwa [hgrew.headerOk.length_got]
  · refine Triple.ofState fun s' ⟨hgrew, hend⟩ => ?_
    cases started with
    | false => exact Triple.ofRun ⟨hkept s' hgrew hend.1, hend.2⟩
    | true =>
      have hlen : s'.headerLen = max 2 s.headerLen := hend
      have hlength := hgrew.headerOk.length_got
      obtain ⟨b0, b1, tail, hgot⟩ : ∃ b0 b1 tail, s'.got = b0 :: b1 :: tail := by
        match hcase : s'.got with
        | [] => simp [hcase] at hlength; omega
        | [b] => simp [hcase] at hlength; omega
        | b0 :: b1 :: tail => exact ⟨b0, b1, tail, rfl⟩
      have hkept' : Kept s (s.got ++ s.source.rest) s' := by
        refine h.grew hnone hgrew fun c0 c1 ctail hc => ?_
        by_cases hold : s.headerLen < 2
        · have := two_le_headerTotal c1
          omega
        · -- the first two bytes were there before, so no byte has been read
          obtain ⟨bytes, -, hbytes⟩ := hgrew.reads
          have hsum := congrArg List.length hbytes
          rw [List.length_append, hlength, h.headerOk.length_got] at hsum
          obtain rfl := List.length_eq_zero_iff.mp (show bytes.length = 0 by omega)
          rw [List.append_nil] at hbytes
          have := h.headerLen_le c0 c1 ctail (hbytes ▸ hc)
          omega
      refine (continueHeader_spec hkept'.safe (hgrew.incoming.trans hnone) hgot).weaken
        (fun _ => id) (fun r s'' h' => hkept'.headerRead hgrew h') (fun e s'' h' => ?_) (fun _ => id)
      rw [← hgrew.unread] at h'
      exact hkept'.failed h'

/-! ### The payload -/

theorem Safe.kept {bytes : Bytes} (h : s.Safe) (hstands : s.Stands bytes) : Kept s bytes s :=
  ⟨h, hstands, rfl, rfl, [], .refl h.headerOk.source⟩

theorem ensureIncoming_spec {bytes : Bytes} (h : s.Safe) (hstands : s.Stands bytes) :
    Triple (fun t => t = s) ensureIncoming
      (fun started s' => Kept s bytes s' ∧
        if started then ∃ inc, s'.incoming = some inc else Waits s s')
      (fun e s' => Failed s bytes e s') (fun _ => False) := by
  refine Triple.bindRead fun t ht => ⟨t, rfl, ?_⟩
  subst ht
  cases hstands with
  | header hnone =>
    simp only [hnone, Option.isNone_none, if_true]
    refine Triple.bind (readHeader_spec h hnone) fun r => ?_
    cases r with
    | none => exact Triple.pure _ fun s' hread => hread
    | some inc =>
      refine Triple.ofState fun s' hread => Triple.ofRun ⟨hread, inc, rfl⟩
  | payload hsome hhead =>
    have hnone : t.incoming.isNone = false := by rw [hsome]; rfl
    simp only [hnone]
    exact Triple.ofRun ⟨h.kept (.payload hsome hhead), _, hsome⟩

/-- More of the payload has arrived. -/
theorem Safe.filled {inc : Incoming} {head : Bytes} {r : Except IoError Unit × Bytes × ℕ}
    {source : Source} (h : s.Safe) (hsome : s.incoming = some inc)
    (hhead : parseHead s.limits s.fragments head =
      .ok (⟨inc.fin, inc.opcode, inc.payload.length⟩, []))
    (hfilled : Filled A s.source inc.payload inc.filled r source) :
    Kept s (head ++ (inc.payload.take inc.filled ++ s.source.rest))
      { s with
        source := source
        incoming := some { inc with payload := r.2.1, filled := r.2.2 } } := by
  obtain ⟨taken, hreads, htake⟩ := hfilled.reads
  have hlength := hfilled.length_eq
  refine ⟨⟨⟨hreads.ok, h.headerOk.length_header, h.headerOk.headerLen_le⟩, h.headerLen_le,
    fun _ => h.idle (by rw [hsome]; rfl), ?_, h.fragments⟩, ?_, rfl, rfl, taken, hreads⟩
  · rintro _ ⟨⟩
    refine ⟨⟨head, ?_⟩, ?_⟩
    · simpa only [hlength] using hhead
    · simpa only [hlength] using hfilled.le.2
  · rw [hreads.rest, ← List.append_assoc (List.take _ _), ← htake]
    refine @Stands.payload A _ { inc with payload := r.2.1, filled := r.2.2 } head rfl ?_
    simpa only [hlength] using hhead

theorem fillIncoming_spec {bytes : Bytes} {inc : Incoming} (h : s.Safe) (hstands : s.Stands bytes)
    (hsome : s.incoming = some inc) :
    Triple (fun t => t = s) fillIncoming
      (fun complete s' => Kept s bytes s' ∧ if complete then
        ∃ inc', s'.incoming = some inc' ∧ inc'.filled = inc'.payload.length else Waits s s')
      (fun e s' => Failed s bytes e s') (fun _ => False) := by
  refine Triple.bindRead fun t ht => ⟨t, rfl, ?_⟩
  subst ht
  simp only [hsome]
  have hinc := h.incoming inc hsome
  by_cases hlt : inc.filled < inc.payload.length
  · rw [if_pos hlt]
    -- the header has been consumed, so the bytes are those of a payload that is still incomplete
    obtain ⟨head, hhead, rfl⟩ : ∃ head, parseHead t.limits t.fragments head =
        .ok (⟨inc.fin, inc.opcode, inc.payload.length⟩, []) ∧
        bytes = head ++ (inc.payload.take inc.filled ++ t.source.rest) := by
      cases hstands with
      | header hnone =>
        rw [hnone] at hsome
        cases hsome
      | payload hsome' hhead =>
        rw [hsome'] at hsome
        cases hsome
        exact ⟨_, hhead, rfl⟩
    have hisize : inc.payload.length ≤ A.usizeMax := by
      have := hinc.checked.2
      unfold Arch.isizeMax at this
      omega
    refine Triple.bind ((onSource_spec (fillInto_spec _ h.headerOk.source hinc.filled_le hisize
      le_rfl)).weaken (fun _ => id) (fun _ _ => id) (fun _ _ ⟨_, _, hfalse⟩ => hfalse.elim)
      (fun _ => id)) ?_
    rintro ⟨outcome, payload, filled⟩
    refine Triple.ofState fun s' ⟨source, hs', hfilled⟩ => ?_
    subst hs'
    have hkept := h.filled hsome hhead hfilled
    refine Triple.bind (M := fun _ s' => s' = { t with
      source := source
      incoming := some { inc with payload := payload, filled := filled } })
      (Triple.modify _ fun s' hs' => by rw [hs']) fun _ => ?_
    cases outcome with
    | ok u =>
      have hfull : filled = payload.length := (hfilled.full rfl).trans hfilled.length_eq.symm
      simp only [decide_eq_true hfull]
      exact Triple.ofRun ⟨hkept, _, rfl, hfull⟩
    | error e =>
      obtain ⟨hlt', hblocked⟩ := hfilled.failed e rfl
      refine (blocked_spec (s := t) hblocked).weaken (fun _ => id) ?_ ?_ (fun _ => id)
      · rintro _ _ ⟨rfl, rfl, hwaits⟩
        exact ⟨hkept, hwaits⟩
      · rintro e' _ ⟨rfl, hcloses⟩
        refine ⟨hkept.safe, rfl, fun hp => ?_, fun hov => (hcloses.1 hov).elim, fun hnil => ?_⟩
        · obtain ⟨rfl, hrest⟩ := hcloses.2 hp
          obtain ⟨taken, hreads, htake⟩ := hfilled.reads
          -- at the end of the stream there is nothing more than what was read of the payload
          have hbody : inc.payload.take inc.filled ++ t.source.rest = payload.take filled := by
            rw [hreads.rest, ← List.append_assoc, ← htake]
            change payload.take filled ++ source.rest = _
            rw [show source.rest = [] from hrest, List.append_nil]
          rw [nextFrame_of_head hhead, hbody]
          refine if_pos ?_
          rw [List.length_take]
          exact lt_of_le_of_lt (min_le_left _ _) hlt'
        · obtain ⟨rfl, -⟩ := List.append_eq_nil_iff.mp hnil
          cases hhead
  · rw [if_neg hlt]
    have hfull : inc.filled = inc.payload.length := le_antisymm hinc.filled_le (by omega)
    simp only [decide_eq_true hfull]
    exact Triple.ofRun ⟨h.kept hstands, inc, hsome, hfull⟩

/-- A frame that has passed the checks is dispatched without a panic, and leaves a message in
progress that is within the limits. -/
theorem dispatch_spec {limits : Limits A} {fragments : Option Partial} {inc : Incoming}
    (hinc : IncomingOk limits fragments inc)
    (hfragments : ∀ fragment, fragments = some fragment → PartialOk limits fragment) :
    match dispatch A fragments inc.fin inc.opcode inc.payload with
    | .frame _ fragments' => ∀ fragment, fragments' = some fragment → PartialOk limits fragment
    | .folded fragments' => ∀ fragment, fragments' = some fragment → PartialOk limits fragment
    | .failed e fragments' =>
      (∀ fragment, fragments' = some fragment → PartialOk limits fragment) ∧
        (e = .capacityOverflow → A.isizeMax < limits.maxMessageSize)
    | .panicked => False := by
  unfold dispatch
  rcases checkFrame_cases hinc.checked.1 with ⟨hcontrol, -⟩ | ⟨hcont, -, fragment, rfl, hsum⟩ |
    ⟨hdata, -, rfl, hlen⟩
  · rcases hcontrol with hop | hop | hop
    · simp only [hop, show opClose ≠ opPing by decide, show opClose ≠ opPong by decide, if_false,
        if_true]
      cases parseClose inc.payload with
      | error e => exact ⟨hfragments, nofun⟩
      | ok status => exact hfragments
    · simp only [hop, if_true]
      exact hfragments
    · simp only [hop, show opPong ≠ opPing by decide, if_false, if_true]
      exact hfragments
  · have hold := hfragments fragment rfl
    have hisize := hinc.checked.2
    -- the sum was checked when the header arrived, and it did not saturate
    have hbound : fragment.buf.length + inc.payload.length ≤ limits.maxMessageSize := by
      have := hold.le_isize
      unfold saturatingAdd at hsum
      unfold Arch.isizeMax at *
      omega
    simp only [hcont, show opContinuation ≠ opPing by decide,
      show opContinuation ≠ opPong by decide, show opContinuation ≠ opClose by decide, if_false,
      if_true, List.length_append]
    by_cases hover : fragment.buf.length + inc.payload.length > A.isizeMax
    · rw [if_pos hover]
      exact ⟨nofun, fun _ => by omega⟩
    · rw [if_neg hover]
      cases inc.fin with
      | true => exact nofun
      | false =>
        rintro _ ⟨⟩
        refine ⟨?_, ?_⟩
        · show (fragment.buf ++ inc.payload).length ≤ _
          rw [List.length_append]
          exact hbound
        · show (fragment.buf ++ inc.payload).length ≤ _
          rw [List.length_append]
          omega
  · have hne : inc.opcode ≠ opPing ∧ inc.opcode ≠ opPong ∧ inc.opcode ≠ opClose ∧
        inc.opcode ≠ opContinuation := by
      rcases hdata with hop | hop <;> rw [hop] <;> decide
    simp only [hne.1, hne.2.1, hne.2.2.1, hne.2.2.2, if_false, if_pos hdata]
    cases hfin : inc.fin with
    | true => exact hfragments
    | false =>
      rintro _ ⟨⟩
      exact ⟨hlen hfin, hinc.checked.2⟩

/-- Between two frames. -/
structure Fresh (s : WsClient A) : Prop where
  incoming : s.incoming = none
  headerLen : s.headerLen = 0

theorem Fresh.stands (h : s.Fresh) : s.Stands s.source.rest := by
  have hgot : s.got = [] := by rw [got, h.headerLen, List.take_zero]
  have := Stands.header h.incoming
  rwa [hgot, List.nil_append] at this

theorem Fresh.stands_eq {bytes : Bytes} (h : s.Fresh) (hstands : s.Stands bytes) :
    bytes = s.source.rest := by
  cases hstands with
  | header hnone => rw [got, h.headerLen, List.take_zero, List.nil_append]
  | payload hsome _ =>
    rw [h.incoming] at hsome
    cases hsome

/-- With no byte left, the client is between two frames. -/
theorem Safe.fresh_of_stands_nil (h : s.Safe) (hstands : s.Stands []) : s.Fresh := by
  generalize hbytes : ([] : Bytes) = bytes at hstands
  cases hstands with
  | header hnone =>
    obtain ⟨hgot, -⟩ := List.append_eq_nil_iff.mp hbytes.symm
    refine ⟨hnone, ?_⟩
    rw [← h.headerOk.length_got, hgot, List.length_nil]
  | payload hsome hhead =>
    obtain ⟨rfl, -⟩ := List.append_eq_nil_iff.mp hbytes.symm
    cases hhead

theorem takeIncoming_spec {bytes : Bytes} {inc : Incoming} (h : s.Safe) (hstands : s.Stands bytes)
    (hsome : s.incoming = some inc) (hfull : inc.filled = inc.payload.length) :
    Triple (fun t => t = s) takeIncoming
      (fun out s' => s'.Safe ∧ s'.Fresh ∧ s'.limits = s.limits ∧ s'.source = s.source ∧
        nextFrame s.limits s.fragments bytes = .more out s'.fragments s.source.rest)
      (fun e s' => Failed s bytes e s') (fun _ => False) := by
  refine Triple.bindRead fun t ht => ⟨t, rfl, ?_⟩
  subst ht
  simp only [hsome]
  have hspec := dispatch_spec (h.incoming inc hsome) h.fragments
  -- the whole frame is there, so that decoding comes down to its dispatch
  have hnext : bytes ≠ [] ∧ nextFrame t.limits t.fragments bytes =
      (dispatch A t.fragments inc.fin inc.opcode inc.payload).step t.source.rest := by
    cases hstands with
    | header hnone =>
      rw [hnone] at hsome
      cases hsome
    | payload hsome' hhead =>
      rw [hsome'] at hsome
      cases hsome
      refine ⟨fun hnil => ?_, ?_⟩
      · obtain ⟨rfl, -⟩ := List.append_eq_nil_iff.mp hnil
        cases hhead
      · rw [nextFrame_of_head hhead, hfull, List.take_length, parseBody_complete rfl]
  have hsafe : ∀ fragments', (∀ fragment, fragments' = some fragment →
      PartialOk t.limits fragment) → Safe { t with incoming := none, fragments := fragments' } :=
    fun fragments' hok => ⟨⟨h.headerOk.source, h.headerOk.length_header, h.headerOk.headerLen_le⟩,
      h.headerLen_le, nofun, nofun, hok⟩
  have hidle : t.headerLen = 0 := h.idle (by rw [hsome]; rfl)
  refine Triple.bind (M := fun _ s' => s' = { t with incoming := none })
    (Triple.modify _ fun s' hs' => by rw [hs']) fun _ => ?_
  cases hd : dispatch A t.fragments inc.fin inc.opcode inc.payload with
  | frame frame fragments =>
    rw [hd] at hspec hnext
    exact Triple.ofRun ⟨hsafe _ hspec, ⟨rfl, hidle⟩, rfl, rfl, hnext.2⟩
  | folded fragments =>
    rw [hd] at hspec hnext
    exact Triple.ofRun ⟨hsafe _ hspec, ⟨rfl, hidle⟩, rfl, rfl, hnext.2⟩
  | failed e fragments =>
    rw [hd] at hspec hnext
    exact Triple.ofRun ⟨hsafe _ hspec.1, rfl, fun _ => hnext.2, fun hov => Or.inr (hspec.2 hov),
      fun hnil => (hnext.1 hnil).elim⟩
  | panicked =>
    rw [hd] at hspec
    exact hspec.elim

/-! ### A call of `read_frame` -/

/-- What a call that succeeds says about the bytes to decode. -/
structure ReadOk (s : WsClient A) (bytes : Bytes) (out : Option Frame) (s' : WsClient A) :
    Prop where
  safe : s'.Safe
  limits : s'.limits = s.limits
  reads : ∃ taken, s.source.Reads A taken s'.source
  next : match out with
    | none => Waits s s' ∧ ∃ bytes', s'.Stands bytes' ∧
        decode s.limits s.fragments bytes = decode s.limits s'.fragments bytes'
    | some frame => s'.Fresh ∧
        (s.Fresh → s'.source.rest.length < s.source.rest.length) ∧
        decode s.limits s.fragments bytes =
          (frame :: (decode s.limits s'.fragments s'.source.rest).1,
            (decode s.limits s'.fragments s'.source.rest).2)

/-- What a call that fails says about the bytes to decode. -/
structure ReadFailed (s : WsClient A) (bytes : Bytes) (e : Failure) (s' : WsClient A) :
    Prop where
  safe : s'.Safe
  limits : s'.limits = s.limits
  overflow : e = .capacityOverflow →
    A.isizeMax < s.limits.maxFrameSize ∨ A.isizeMax < s.limits.maxMessageSize
  stop : Polite s.source.stream.inbound → ∃ fragments rest,
    decode s.limits s.fragments bytes = ([], ⟨some e, fragments, rest⟩) ∧
      (rest = [] → s'.Fresh ∧ s'.fragments = fragments)

theorem Failed.readFailed {bytes : Bytes} {e : Failure} (h : Failed s bytes e s') :
    ReadFailed s bytes e s' := by
  refine ⟨h.safe, h.limits, h.overflow, fun hp => ⟨_, _, decode_stop (h.stop hp), fun hnil => ?_⟩⟩
  obtain ⟨hstands, hfragments⟩ := h.atEnd hnil
  exact ⟨h.safe.fresh_of_stands_nil hstands, hfragments⟩

theorem Kept.readOk_none {bytes : Bytes} (h : Kept s bytes s') (hwaits : Waits s s') :
    ReadOk s bytes none s' :=
  ⟨h.safe, h.limits, h.reads, hwaits, bytes, h.stands, by rw [h.fragments]⟩

theorem frameLoop_spec (fuel : ℕ) {bytes : Bytes} (h : s.Safe) (hstands : s.Stands bytes)
    (hfuel : s.source.rest.length + 1 < fuel ∨ s.Fresh ∧ s.source.rest.length < fuel) :
    Triple (fun t => t = s) (frameLoop fuel) (fun out s' => ReadOk s bytes out s')
      (fun e s' => ReadFailed s bytes e s') (fun _ => False) := by
  induction fuel generalizing s bytes with
  | zero => omega
  | succ fuel ih =>
    refine Triple.bind ((ensureIncoming_spec h hstands).weaken (fun _ => id) (fun _ _ => id)
      (fun _ _ hfailed => hfailed.readFailed) (fun _ => id)) fun started => ?_
    refine Triple.ofState fun s₁ ⟨hkept₁, hstarted⟩ => ?_
    cases started with
    | false => exact Triple.ofRun (hkept₁.readOk_none hstarted)
    | true =>
      obtain ⟨inc₁, hinc₁⟩ := hstarted
      refine Triple.bind ((fillIncoming_spec hkept₁.safe hkept₁.stands hinc₁).weaken (fun _ => id)
        (fun _ _ => id) (fun _ _ hfailed => (hkept₁.failed hfailed).readFailed) (fun _ => id))
        fun complete => ?_
      refine Triple.ofState fun s₂ ⟨hkept₂, hcomplete⟩ => ?_
      have hkept := hkept₁.trans hkept₂
      cases complete with
      | false => exact Triple.ofRun (hkept.readOk_none (hkept₁.waits hcomplete))
      | true =>
        obtain ⟨inc₂, hinc₂, hfull⟩ := hcomplete
        refine Triple.bind ((takeIncoming_spec hkept.safe hkept.stands hinc₂ hfull).weaken
          (fun _ => id) (fun _ _ => id) (fun _ _ hfailed => (hkept.failed hfailed).readFailed)
          (fun _ => id)) fun out => ?_
        refine Triple.ofState fun s₃ ⟨hsafe, hfresh, hlimits, hsource, hnext⟩ => ?_
        rw [hkept.limits] at hlimits
        rw [hkept.limits, hkept.fragments, ← hsource] at hnext
        obtain ⟨taken, hreads⟩ := hkept.reads
        rw [← hsource] at hreads
        cases out with
        | some frame =>
          refine Triple.ofRun ⟨hsafe, hlimits, ⟨_, hreads⟩, hfresh, fun hs => ?_, ?_⟩
          · have := nextFrame_shorter hnext
            rw [hs.stands_eq hstands] at this
            show s₃.source.rest.length < _
            omega
          · rw [decode_more hnext]
            rfl
        | none =>
          -- the frame was folded into a message, and has taken some bytes unless it was resumed
          have hle := congrArg List.length hreads.rest
          rw [List.length_append] at hle
          have hless : s₃.source.rest.length < fuel := by
            rcases hfuel with hlt | ⟨hs, hlt⟩
            · omega
            · have := nextFrame_shorter hnext
              rw [hs.stands_eq hstands] at this
              omega
          have hdecode : decode s.limits s.fragments bytes =
              decode s₃.limits s₃.fragments s₃.source.rest := by
            rw [decode_more hnext, hlimits]
            rfl
          refine (ih hsafe hfresh.stands (Or.inr ⟨hfresh, hless⟩)).weaken (fun _ => id) ?_ ?_
            (fun _ => id)
          · rintro out s' ⟨hsafe', hlimits', ⟨taken', hreads'⟩, hout⟩
            refine ⟨hsafe', hlimits'.trans hlimits, ⟨_, hreads.trans hreads'⟩, ?_⟩
            rw [hdecode, ← hlimits]
            cases out with
            | some frame =>
              refine ⟨hout.1, fun _ => ?_, hout.2.2⟩
              have := hout.2.1 hfresh
              omega
            | none =>
              refine ⟨fun hp => ?_, hout.2⟩
              have := hout.1 (hreads.polite hp)
              have := hreads.size
              omega
          · rintro e s' ⟨hsafe', hlimits', hover, hstop⟩
            refine ⟨hsafe', hlimits'.trans hlimits, ?_, fun hp => ?_⟩
            · rw [← hlimits]
              exact hover
            · rw [hdecode]
              exact hstop (hreads.polite hp)

/-- A call of `read_frame` never panics, keeps the invariant, and decodes what `decode` does. -/
theorem readFrame_spec {bytes : Bytes} (h : s.Safe) (hstands : s.Stands bytes) :
    Triple (fun t => t = s) readFrame (fun out s' => ReadOk s bytes out s')
      (fun e s' => ReadFailed s bytes e s') (fun _ => False) := by
  rintro _ rfl
  exact frameLoop_spec _ h hstands (Or.inl (by omega)) _ rfl

end WsClient

end WhatsappEsp32.Ws
