import WhatsappEsp32.Storage.Store

/-!
# Batches

`put_identities_batch` and `put_sessions_batch` against the single writes: a batch leaves what
writing its entries one by one leaves, up to the first one that is refused.

* `SameEnd`: two runs end in the same state and in the same way;
* `putSession_sameEnd`: the two ways to write a session, which differ in where they check its size
  and in how they split the work into flash jobs;
* `batch_eq_singles`.
-/

namespace WhatsappEsp32

open CrashLogic FlashNamespaces NvsStore

variable {Device SyncKey α β ι : Type} {P : Platform Device SyncKey}

/-! ### Runs that end alike -/

/-- The same state, and success with the same value, an error of whatever text, or a power loss
on both sides. -/
inductive SameEnd {σ ε : Type} : Outcome ε α × σ → Outcome ε α × σ → Prop
  | ok (a : α) (s : σ) : SameEnd (.ok a, s) (.ok a, s)
  | error (e e' : ε) (s : σ) : SameEnd (.error e, s) (.error e', s)
  | halted (s : σ) : SameEnd (.halted, s) (.halted, s)

theorem SameEnd.refl {σ ε : Type} (r : Outcome ε α × σ) : SameEnd r r := by
  obtain ⟨a | e | _, s⟩ := r
  · exact .ok a s
  · exact .error e e s
  · exact .halted s

/-- Go on in the same way after runs that end alike. -/
theorem SameEnd.bind {σ ε : Type} {p q : Prog σ ε α} {f g : α → Prog σ ε β} {s : σ}
    (h : SameEnd (p s) (q s)) (hnext : ∀ a s', p s = (.ok a, s') → SameEnd (f a s') (g a s')) :
    SameEnd ((p >>= f) s) ((q >>= g) s) := by
  rw [Prog.bind_run, Prog.bind_run]
  generalize hp : p s = r at h
  generalize q s = r' at h
  cases h with
  | ok a s' => exact hnext a s' hp
  | error e e' s' => exact .error e e' s'
  | halted s' => exact .halted s'

/-- Do one thing after the other. -/
def inTurn {σ ε : Type} (f : ι → Prog σ ε Unit) : List ι → Prog σ ε Unit
  | [] => pure ()
  | entry :: entries => do
    f entry
    inTurn f entries

/-- Two loops whose bodies end alike end alike. -/
theorem inTurn_sameEnd {σ ε : Type} {f g : ι → Prog σ ε Unit} {I : σ → Prop}
    (hbody : ∀ entry s, I s → SameEnd (f entry s) (g entry s))
    (hkeep : ∀ entry s s', I s → f entry s = (.ok (), s') → I s') (entries : List ι) {s : σ}
    (hs : I s) : SameEnd (inTurn f entries s) (inTurn g entries s) := by
  induction entries generalizing s with
  | nil => exact .refl _
  | cons entry entries ih =>
    exact (hbody entry s hs).bind fun _ s' hrun => ih (hkeep entry s s' hs hrun)

/-- A loop keeps what its body keeps. -/
theorem keeps_inTurn {σ ε : Type} {f : ι → Prog σ ε Unit} {K : σ → Prop}
    (h : ∀ entry, Keeps K (f entry)) (entries : List ι) : Keeps K (inTurn f entries) := by
  induction entries with
  | nil => exact .pure ()
  | cons entry entries ih => exact (h entry).bind fun _ => ih

/-! ### Flash jobs -/

theorem run_bind (p : FlashM α) (f : α → FlashM β) :
    (run (p >>= f) : StoreM Device SyncKey β) = run p >>= fun a => run (f a) := by
  funext s
  rw [Prog.bind_run]
  simp only [run, Prog.zoom, Prog.bind_run]
  generalize p s.flash = r
  obtain ⟨a | e | _, f'⟩ := r <;> rfl

theorem run_ofExcept (x : Except StoreError α) :
    (run (Prog.ofExcept x) : StoreM Device SyncKey α) = Prog.ofExcept x := by
  funext s
  cases x <;> rfl

/-- A gate lets through or refuses, and changes nothing. -/
theorem mirrorGate_cases (has : StoreInner Device SyncKey → Bool)
    (len : StoreInner Device SyncKey → ℕ) (max : ℕ) (label : String)
    (s : NvsStore Device SyncKey) :
    mirrorGate has len max label s = (.ok (), s) ∨
      ∃ e, mirrorGate has len max label s = (.error e, s) := by
  show Prog.ofExcept (ensureInsertCapacity (has s.inner) (len s.inner) max label) s = _ ∨
    ∃ e, Prog.ofExcept (ensureInsertCapacity (has s.inner) (len s.inner) max label) s = _
  cases ensureInsertCapacity (has s.inner) (len s.inner) max label with
  | ok u => exact Or.inl rfl
  | error e => exact Or.inr ⟨e, rfl⟩

/-- A write of one entry leaves the store open for writes. -/
theorem accepting_of_write {has : StoreInner Device SyncKey → Bool}
    {len : StoreInner Device SyncKey → ℕ} {max : ℕ} {label : String} {job : FlashM Unit}
    {change : StoreInner Device SyncKey → StoreInner Device SyncKey}
    (s : NvsStore Device SyncKey) :
    ((mirrorGate has len max label >>= fun _ => run job >>= fun _ => update change) s).2.acceptingWrites =
      s.acceptingWrites := by
  rcases mirrorGate_cases has len max label s with hgate | ⟨e, hgate⟩
  · rw [Prog.bind_of_ok hgate, Prog.bind_run]
    simp only [run, Prog.zoom]
    generalize job s.flash = r
    obtain ⟨a | e | _, f'⟩ := r <;> rfl
  · rw [Prog.bind_of_error hgate]

theorem writeOperation_of_accepting {s : NvsStore Device SyncKey} (h : s.acceptingWrites = true) :
    writeOperation s = (.ok (), s) := by
  show (if s.acceptingWrites = true then pure () else _ : StoreM Device SyncKey Unit) s = _
  rw [if_pos h, Prog.pure_run]

theorem writeOperation_of_sealed {s : NvsStore Device SyncKey} (h : s.acceptingWrites = false) :
    writeOperation s = (.error (.validation "WhatsApp storage is sealed for maintenance"), s) := by
  show (if s.acceptingWrites = true then pure () else _ : StoreM Device SyncKey Unit) s = _
  rw [h]
  rfl

/-! ### Single writes and their place in a batch -/

variable (P)

theorem putIdentity_sameEnd (address : String) (key : IdentityKey) {s : NvsStore Device SyncKey}
    (hs : s.acceptingWrites = true) :
    SameEnd (putIdentityBody P address key s) (putIdentity P address key s) := by
  unfold putIdentity
  rw [Prog.bind_of_ok (writeOperation_of_accepting hs)]
  exact .refl _

/-- The flash job of a batch refuses a session that is too large before it does anything. -/
theorem putRecord_too_large (n : Ns) (key : Bytes) {value : Bytes} (label : String) (max : ℕ)
    (h : value.length > maxSignalRecordLen) (f : FlashNamespaces) :
    ∃ e, putRecord P n key value label max f = (.error e, f) := by
  refine ⟨.validation s!"{label} record is too large: {value.length} bytes", ?_⟩
  unfold putRecord prepareRecord checkRecordSlot
  rw [if_pos h]
  rfl

/-- The two ways to write a session end alike. -/
theorem putSession_sameEnd (address : String) (session : Bytes) {s : NvsStore Device SyncKey}
    (hs : s.acceptingWrites = true) :
    SameEnd (putSessionBody P address session s) (putSession P address session s) := by
  have hgate := mirrorGate_cases (fun s => (s.sessions.map.lookup address).isSome)
    (fun s => s.sessions.map.size) maxSessions "session" s
  unfold putSession
  by_cases hlen : session.length > maxSignalRecordLen
  · rw [if_pos hlen, Prog.throw_run]
    unfold putSessionBody sessionGate
    rcases hgate with hgate | ⟨e, hgate⟩
    · obtain ⟨e, he⟩ := putRecord_too_large P (.records .sessions) (asBytes address) "session"
        maxSessions hlen s.flash
      have hjob : (run (putRecord P (.records .sessions) (asBytes address) session "session"
          maxSessions) : StoreM Device SyncKey Unit) s = (.error e, s) := by
        simp only [run, Prog.zoom, he]
      rw [Prog.bind_of_ok hgate, Prog.bind_of_error hjob]
      exact .error _ _ _
    · rw [Prog.bind_of_error hgate]
      exact .error _ _ _
  · rw [if_neg hlen, Prog.bind_of_ok (writeOperation_of_accepting hs)]
    unfold putSessionBody putRecord prepareRecord
    refine SameEnd.bind (.refl _) fun _ s₁ _ => ?_
    simp only [Prog.bind_assoc, run_bind]
    refine SameEnd.bind (.refl _) fun name s₂ _ => ?_
    rw [run_ofExcept]
    by_cases hkey : (asBytes address).length > maxLogicalKeyLen
    · rw [encodeRecord, if_pos hkey]
      exact .error _ _ _
    · -- the mirrored slice of the record is the session
      rw [encodeRecord, if_neg hkey, Prog.ofExcept_ok_bind, Prog.ofExcept_ok_bind, record_payload]
      exact .refl _

/-! ### Batches -/

/-- A loop behind the write gate against a loop of writes that each pass the gate. -/
theorem batch_sameEnd {body single : ι → StoreM Device SyncKey Unit}
    (hbody : ∀ entry s, s.acceptingWrites = true → SameEnd (body entry s) (single entry s))
    (hkeep : ∀ entry s, (body entry s).2.acceptingWrites = s.acceptingWrites)
    (hsealed : ∀ entry s, s.acceptingWrites = false → ∃ e, single entry s = (.error e, s))
    (entries : List ι) (s : NvsStore Device SyncKey) :
    SameEnd ((if entries = [] then pure () else writeOperation >>= fun _ => inTurn body entries :
      StoreM Device SyncKey Unit) s) (inTurn single entries s) := by
  cases entries with
  | nil => exact .refl _
  | cons entry entries =>
    rw [if_neg (List.cons_ne_nil entry entries)]
    cases hs : s.acceptingWrites with
    | false =>
      obtain ⟨e, he⟩ := hsealed entry s hs
      rw [Prog.bind_of_error (writeOperation_of_sealed hs), inTurn, Prog.bind_of_error he]
      exact .error _ _ _
    | true =>
      rw [Prog.bind_of_ok (writeOperation_of_accepting hs)]
      refine inTurn_sameEnd hbody (fun entry s s' hs hrun => ?_) _ hs
      have hkept := hkeep entry s
      rw [hrun, hs] at hkept
      exact hkept

theorem putIdentities_eq (entries : List (String × IdentityKey)) :
    putIdentities P entries = inTurn (fun e => putIdentityBody P e.1 e.2) entries := by
  induction entries with
  | nil => rfl
  | cons entry entries ih => rw [putIdentities, ih, inTurn]

theorem putSessions_eq (entries : List (String × Bytes)) :
    putSessions P entries = inTurn (fun e => putSessionBody P e.1 e.2) entries := by
  induction entries with
  | nil => rfl
  | cons entry entries ih => rw [putSessions, ih, inTurn]

/-- From every store, a batch ends in the flash, mirrors, use order and slot cache, and with the
success or failure, of its entries written one by one up to the first error. -/
theorem batch_eq_singles (s : NvsStore Device SyncKey) :
    (∀ entries, SameEnd (putSessionsBatch P entries s)
      (inTurn (fun e => putSession P e.1 e.2) entries s)) ∧
    ∀ entries, SameEnd (putIdentitiesBatch P entries s)
      (inTurn (fun e => putIdentity P e.1 e.2) entries s) := by
  constructor
  · intro entries
    unfold putSessionsBatch
    rw [putSessions_eq]
    refine batch_sameEnd (fun e s hs => putSession_sameEnd P e.1 e.2 hs)
      (fun e s => accepting_of_write s) (fun e s hs => ?_) entries s
    unfold putSession
    split_ifs
    · exact ⟨_, rfl⟩
    · exact ⟨_, Prog.bind_of_error (writeOperation_of_sealed hs)⟩
  · intro entries
    unfold putIdentitiesBatch
    rw [putIdentities_eq]
    refine batch_sameEnd (fun e s hs => putIdentity_sameEnd P e.1 e.2 hs)
      (fun e s => accepting_of_write s) (fun e s hs => ?_) entries s
    exact ⟨_, Prog.bind_of_error (writeOperation_of_sealed hs)⟩

end WhatsappEsp32
