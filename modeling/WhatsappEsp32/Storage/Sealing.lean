import WhatsappEsp32.Storage.Concurrent

/-!
# Sealing the store

Any number of threads make calls while one thread seals the store and then erases it, trying again
until it succeeds.  The flag is stored and checked under the `operation` mutex, which every write
holds until it returns; so once the flag is down no write is under way, and none starts.

* `Maintenance`, `maintain`: what the maintenance thread does;
* `SealRun`: the runs;
* `sealing`: the protocol the threads keep to, with `keepsSeal_task` for the calls and
  `sat_maintain` for the maintenance thread;
* `nothing_written_behind_seal`: behind the seal no call changes the partition, and what was
  erased stays erased.
-/

namespace WhatsappEsp32

open CrashLogic FlashNamespaces NvsStore Threads

variable {Device SyncKey α β : Type}

/-! ### The system -/

/-- What the maintenance thread does after sealing the store. -/
inductive Maintenance
  | reset
  | clearSessions

/-- What it has erased when it is done. -/
def Maintenance.Erased : Maintenance → (Ns → Namespace) → Prop
  | .reset, ns => ns .device = ∅ ∧ ∀ kind, ns (.records kind) = ∅
  | .clearSessions, ns => ns (.records .sessions) = ∅

variable (P : Platform Device SyncKey)

/-- The erasing call. -/
def Maintenance.erase : Maintenance → StoreT Device SyncKey Unit
  | .reset => Threaded.reset P
  | .clearSessions => do
    let _ ← Threaded.clearSessions P
    pure ()

/-- One attempt of the maintenance thread. -/
def maintain (action : Maintenance) : StoreThread Device SyncKey := (do
  Threaded.sealWrites
  action.erase P : StoreT Device SyncKey Unit)

/-- The calls of the other threads. -/
def Call.isCallers : Call Device SyncKey α → Bool
  | .clearSessions | .reset | .sealWrites | .reboot => false
  | _ => true

variable {ι : Type} [DecidableEq ι]

/-- The maintenance thread tries again after an error; the others make any calls. -/
def sealCalls (maintainer : ι) (action : Maintenance) (i : ι) (r : Except StoreError Unit)
    (p : StoreThread Device SyncKey) : Prop :=
  if i = maintainer then
    r ≠ .ok () ∧ p = maintain P action
  else
    ∃ (α : Type) (call : Call Device SyncKey α), call.isCallers = true ∧ p = callThread P call

/-- At first the maintenance thread is about to start, and the others do nothing. -/
def sealStart (maintainer : ι) (action : Maintenance)
    (s : NvsStore Device SyncKey) :
    Config ι Lock (Kind × Bytes) (NvsStore Device SyncKey) (Except StoreError Unit) :=
  .start s fun i => if i = maintainer then maintain P action else .ret (.ok ())

/-- Any interleaving of the threads. -/
def SealRun (maintainer : ι) (action : Maintenance) (s : NvsStore Device SyncKey)
    (c : Config ι Lock (Kind × Bytes) (NvsStore Device SyncKey) (Except StoreError Unit)) : Prop :=
  Relation.ReflTransGen (AnyStep (sealCalls P maintainer action) fun _ _ => True)
    (sealStart P maintainer action s) c

/-- The moment `seal_writes` has returned: what is left of the attempt is the erasure. -/
def SealReturned (maintainer : ι) (action : Maintenance)
    (c : Config ι Lock (Kind × Bytes) (NvsStore Device SyncKey) (Except StoreError Unit)) : Prop :=
  c.threads maintainer = action.erase P

/-! ### The protocol -/

/-- Only the holder of the `operation` mutex writes, only the maintenance thread seals, and nobody
else writes behind the seal. -/
def sealing (Device SyncKey : Type) {ι : Type} (maintainer : ι) (action : Maintenance) :
    Protocol ι Lock (Kind × Bytes) (NvsStore Device SyncKey) (Except StoreError Unit) where
  free _ _ := True
  env i H _ s s' :=
    (.operation ∈ H → s'.flash.namespaces = s.flash.namespaces ∧
      s'.acceptingWrites = s.acceptingWrites) ∧
    (s.acceptingWrites = false → s'.acceptingWrites = false) ∧
    (i = maintainer → s.acceptingWrites = false → s'.flash.namespaces = s.flash.namespaces)
  guar i H s s' :=
    (.operation ∉ H → s'.flash.namespaces = s.flash.namespaces ∧
      s'.acceptingWrites = s.acceptingWrites) ∧
    (s.acceptingWrites = false → s'.acceptingWrites = false) ∧
    (i ≠ maintainer → s'.acceptingWrites = s.acceptingWrites ∧
      (s.acceptingWrites = false → s'.flash.namespaces = s.flash.namespaces))
  post i r s := i = maintainer → s.acceptingWrites = false ∧
    (r = .ok () → action.Erased s.flash.namespaces)

variable {P} {maintainer i : ι} {action : Maintenance} {H : Set Lock}
  {w : Option (Kind × Bytes)}

omit [DecidableEq ι] in
theorem sealing_lawful : (sealing Device SyncKey maintainer action).Lawful fun _ _ => True where
  refl _ _ _ _ := ⟨fun _ => ⟨rfl, rfl⟩, id, fun _ _ => rfl⟩
  trans h h' := by
    refine ⟨fun hop => ?_, fun hs => h'.2.1 (h.2.1 hs), fun hi hs => ?_⟩
    · exact ⟨(h'.1 hop).1.trans (h.1 hop).1, (h'.1 hop).2.trans (h.1 hop).2⟩
    · exact (h'.2.2 hi (h.2.1 hs)).trans (h.2.2 hi hs)
  free _ _ _ := trivial
  compat hij _ hguar := by
    refine ⟨fun hop => hguar.1 (Config.notMem_held hij hop), hguar.2.1, ?_⟩
    rintro rfl hs
    exact (hguar.2.2 (Ne.symm hij)).2 hs

omit [DecidableEq ι] in
theorem sealing_guar_refl (s : NvsStore Device SyncKey) :
    (sealing Device SyncKey maintainer action).guar i H s s :=
  ⟨fun _ => ⟨rfl, rfl⟩, id, fun _ => ⟨rfl, fun _ => rfl⟩⟩

/-! ### The callers -/

/-- Whoever holds the `operation` mutex for a write has seen the flag up. -/
def Unsealed (H : Set Lock) (s : NvsStore Device SyncKey) : Prop :=
  .operation ∈ H → s.acceptingWrites = true

/-- A part of a call keeps to the protocol. -/
def KeepsSeal (maintainer : ι) (action : Maintenance) (i : ι) (H : Set Lock)
    (w : Option (Kind × Bytes)) (p : StoreT Device SyncKey α) : Prop :=
  Ensures (sealing Device SyncKey maintainer action) i H w (Unsealed H) p (fun _ => Unsealed H)
    (Unsealed H)

/-- An access to the mirrors that leaves everything else alone. -/
def MirrorsOnly (p : StoreM Device SyncKey α) : Prop :=
  ∀ s, (p s).2.flash = s.flash ∧ (p s).2.acceptingWrites = s.acceptingWrites

omit [DecidableEq ι] in
theorem stable_unsealed :
    Stable (sealing Device SyncKey maintainer action) i H w (Unsealed H) :=
  fun _ _ hs henv hop => (henv.1 hop).2.trans (hs hop)

namespace KeepsSeal

omit [DecidableEq ι]

theorem pure (a : α) :
    KeepsSeal maintainer action i H none (Pure.pure a : StoreT Device SyncKey α) :=
  Ensures.pure a fun _ => id

theorem throw (e : StoreError) :
    KeepsSeal maintainer action i H none (MonadExcept.throw e : StoreT Device SyncKey α) :=
  Ensures.throw e fun _ => id

theorem bind {p : StoreT Device SyncKey α} {k : α → StoreT Device SyncKey β}
    (h : KeepsSeal maintainer action i H w p)
    (hk : ∀ a, KeepsSeal maintainer action i H none (k a)) :
    KeepsSeal maintainer action i H w (p >>= k) := Ensures.bind h hk

/-- An action that leaves the flag alone, and outside the mutex the partition too. -/
theorem step {p : StoreM Device SyncKey α}
    (hflag : ∀ s, (p s).2.acceptingWrites = s.acceptingWrites)
    (hns : .operation ∉ H → ∀ s, (p s).2.flash.namespaces = s.flash.namespaces)
    (s : NvsStore Device SyncKey) (hs : Unsealed H s) :
    (sealing Device SyncKey maintainer action).guar i H s (p s).2 ∧
      (p s).1.Meets (fun _ => Unsealed H (p s).2) (fun _ => Unsealed H (p s).2) True := by
  have hs' : Unsealed H (p s).2 := fun hop => (hflag s).trans (hs hop)
  constructor
  · refine ⟨fun hop => ⟨hns hop s, hflag s⟩, fun h => (hflag s).trans h, fun _ =>
      ⟨hflag s, fun hsealed => ?_⟩⟩
    by_cases hop : .operation ∈ H
    · -- a write under the mutex has seen the flag up
      exact absurd (hs hop) (by simp [hsealed])
    · exact hns hop s
  · exact Outcome.Meets.const _ hs'

theorem mirrors {p : StoreM Device SyncKey α} (hp : MirrorsOnly p) :
    KeepsSeal maintainer action i H w (Threaded.mirrors p) := by
  refine Ensures.act stable_unsealed (step (fun s => (hp s).2) fun _ s => ?_)
  rw [(hp s).1]

theorem job {j : FlashM α}
    (hj : .operation ∉ H → ∀ ns, Keeps (fun f => f.namespaces = ns) j) :
    KeepsSeal maintainer action i H w (Threaded.job j : StoreT Device SyncKey α) :=
  Ensures.act stable_unsealed (step (fun _ => rfl) fun hop s => (hj hop s.flash.namespaces).snd rfl)

/-- A job under the mutex. -/
theorem jobLocked {j : FlashM α} (hop : .operation ∈ H) :
    KeepsSeal maintainer action i H w (Threaded.job j : StoreT Device SyncKey α) :=
  job fun h => absurd hop h

/-- The flash read of a lookup, and what is done with the record. -/
theorem readingBind {kind : Kind} {key : Bytes} {mirrored : β → Bool} {j : FlashM (Option β)}
    {k : Option β → StoreT Device SyncKey α}
    (hj : ∀ ns, Keeps (fun f => f.namespaces = ns) j)
    (hnone : KeepsSeal maintainer action i H none (k none))
    (hsome : ∀ v, KeepsSeal maintainer action i H
      (if mirrored v then some (kind, key) else none) (k (some v))) :
    KeepsSeal maintainer action i H w (Threaded.reading kind key mirrored j >>= k) := by
  refine Ensures.actBind stable_unsealed
    (step (fun _ => rfl) fun _ s => (hj s.flash.namespaces).snd rfl) (fun _ => rfl) fun r => ?_
  cases r with
  | none => exact hnone
  | some v => exact hsome v

theorem withInner {p : StoreT Device SyncKey α} (hinner : .inner ∉ H)
    (h : KeepsSeal maintainer action i (insert .inner H) w p) :
    KeepsSeal maintainer action i H w (Thread.withLock .inner p) := by
  have hmem : Lock.operation ∈ insert .inner H ↔ .operation ∈ H := by simp
  have hback : ∀ s s' : NvsStore Device SyncKey, Unsealed (insert .inner H) s →
      (sealing Device SyncKey maintainer action).env i (insert .inner H) none s s' →
      True ∧ Unsealed H s' := fun s s' hs henv =>
    ⟨trivial, fun hop => stable_unsealed s s' hs henv (hmem.mpr hop)⟩
  refine Ensures.withLock hinner (fun s s' hs henv _ hop => ?_) h (fun _ => hback) hback
  exact stable_unsealed s s' hs henv (hmem.mp hop)

/-- A write goes on only if the flag is up. -/
theorem writing {p : StoreT Device SyncKey α} (hop : .operation ∉ H)
    (h : KeepsSeal maintainer action i (insert .operation H) none p) :
    KeepsSeal maintainer action i H w (Threaded.writing p) := by
  have hback : ∀ s s' : NvsStore Device SyncKey, True →
      (sealing Device SyncKey maintainer action).env i (insert .operation H) none s s' →
      True ∧ Unsealed H s' := fun _ _ _ _ => ⟨trivial, fun hop' => absurd hop' hop⟩
  refine Ensures.withLock (K := fun _ => True) hop (fun _ _ _ _ _ => trivial) ?_
    (fun _ => hback) hback
  refine Ensures.bind (M := fun _ => Unsealed (insert .operation H))
    (Ensures.act (fun _ _ _ _ => trivial) fun s _ => ?_)
    fun _ => h.weaken (fun _ => id) (fun _ _ _ => trivial) fun _ _ => trivial
  rw [writeOperation_state]
  refine ⟨sealing_guar_refl s, ?_⟩
  cases hflag : s.acceptingWrites with
  | true =>
    rw [writeOperation_of_accepting hflag]
    exact fun _ => hflag
  | false =>
    rw [writeOperation_of_sealed hflag]
    trivial

end KeepsSeal

theorem mirrorsOnly_update (f : StoreInner Device SyncKey → StoreInner Device SyncKey) :
    MirrorsOnly (update f) := fun _ => ⟨rfl, rfl⟩

theorem mirrorsOnly_withInner (f : StoreInner Device SyncKey → α) : MirrorsOnly (withInner f) :=
  fun _ => ⟨rfl, rfl⟩

theorem mirrorsOnly_gate (has : StoreInner Device SyncKey → Bool)
    (len : StoreInner Device SyncKey → ℕ) (max : ℕ) (label : String) :
    MirrorsOnly (mirrorGate has len max label) := by
  intro s
  rw [mirrorGate_state]
  exact ⟨rfl, rfl⟩

theorem mirrorsOnly_lookup (get : StoreInner Device SyncKey → Option β)
    (touch : StoreInner Device SyncKey → StoreInner Device SyncKey) :
    MirrorsOnly (Threaded.lookup get touch) := by
  intro s
  unfold Threaded.lookup
  rw [Prog.bind_of_ok (show withInner get s = (.ok (get s.inner), s) from rfl)]
  cases get s.inner with
  | some value => exact ⟨rfl, rfl⟩
  | none => exact ⟨rfl, rfl⟩

/-! ### Flash reads -/

theorem loadRecord_namespaces (n : Ns) (key : Bytes) (maxValueLen : ℕ) (ns : Ns → Namespace) :
    Keeps (fun f => f.namespaces = ns) (loadRecord P n key maxValueLen) := by
  have hslot : ∀ name, Keeps (fun f => f.namespaces = ns) (rememberSessionSlot n name key) := by
    intro name
    refine Keeps.ite (fun _ => .pure _) fun _ => ?_
    exact Triple.modify _ fun _ hf => hf
  refine (readBlob_readOnly_all _ _ _).keeps.bind fun r => ?_
  cases r with
  | none => exact .pure _
  | some record =>
    exact .bind (.ofExcept _) fun entry => .ite (fun _ => .pure _) fun _ =>
      .ite (fun _ => .throw _) fun _ => (hslot _).bind fun _ => .pure _

/-! ### The calls -/

section

omit [DecidableEq ι]

theorem keepsSeal_gatedWrite {has : StoreInner Device SyncKey → Bool}
    {len : StoreInner Device SyncKey → ℕ} {max : ℕ} {label : String} {j : FlashM α}
    {change : StoreInner Device SyncKey → StoreInner Device SyncKey} :
    KeepsSeal maintainer action i ∅ none
      (Threaded.gatedWrite (mirrorGate has len max label) j change) := by
  refine .writing (by simp) (.withInner (by simp) ?_)
  refine (KeepsSeal.mirrors (mirrorsOnly_gate _ _ _ _)).bind fun _ => ?_
  exact (KeepsSeal.jobLocked (by simp)).bind fun _ => .mirrors (mirrorsOnly_update _)

theorem keepsSeal_plainWrite {j : FlashM α}
    {change : StoreInner Device SyncKey → StoreInner Device SyncKey} :
    KeepsSeal maintainer action i ∅ none (Threaded.plainWrite j change) := by
  refine .writing (by simp) (.withInner (by simp) ?_)
  exact (KeepsSeal.jobLocked (by simp)).bind fun _ => .mirrors (mirrorsOnly_update _)

/-- The batches give the inner lock back between their steps, but not the mutex. -/
theorem keepsSeal_batch {κ : Type} {has : κ → StoreInner Device SyncKey → Bool}
    {len : StoreInner Device SyncKey → ℕ} {max : ℕ} {label : String} {j : κ → FlashM α}
    {change : κ → StoreInner Device SyncKey → StoreInner Device SyncKey} (entries : List κ) :
    KeepsSeal maintainer action i (insert .operation ∅) none
      (Threaded.entriesInTurn (fun e => Threaded.batchEntry (mirrorGate (has e) len max label)
        (j e) (change e)) entries) := by
  induction entries with
  | nil => exact .pure _
  | cons e entries ih =>
    refine KeepsSeal.bind ?_ fun _ => ih
    refine (KeepsSeal.withInner (by simp) (.mirrors (mirrorsOnly_gate _ _ _ _))).bind fun _ => ?_
    refine (KeepsSeal.jobLocked (by simp)).bind fun _ => ?_
    exact .withInner (by simp) (.mirrors (mirrorsOnly_update _))

theorem keepsSeal_mirrored (get : StoreInner Device SyncKey → α) :
    KeepsSeal maintainer action i ∅ none (Threaded.mirrored get) :=
  .withInner (by simp) (.mirrors (mirrorsOnly_withInner _))

/-- A lookup: the mirror, then the flash. -/
theorem keepsSeal_lookup {get : StoreInner Device SyncKey → Option β}
    {touch : StoreInner Device SyncKey → StoreInner Device SyncKey}
    {k : Option β → StoreT Device SyncKey α}
    (hk : ∀ r, KeepsSeal maintainer action i ∅ none (k r)) :
    KeepsSeal maintainer action i ∅ none
      (Thread.withLock .inner (Threaded.mirrors (Threaded.lookup get touch)) >>= k) :=
  (KeepsSeal.withInner (by simp) (.mirrors (mirrorsOnly_lookup _ _))).bind hk

/-- The end of a lookup on the flash: the record is mirrored and returned. -/
theorem keepsSeal_mirroring (change : StoreInner Device SyncKey → StoreInner Device SyncKey)
    (r : α) : KeepsSeal maintainer action i ∅ w (do
      Thread.withLock .inner (Threaded.mirrors (update change))
      pure r) :=
  (KeepsSeal.withInner (by simp) (.mirrors (mirrorsOnly_update _))).bind fun _ => .pure r

theorem keepsSeal_loadIdentity (address : String) :
    KeepsSeal maintainer action i ∅ none (Threaded.loadIdentity P address) := by
  refine keepsSeal_lookup fun r => ?_
  cases r with
  | some key => exact .pure _
  | none =>
    refine .readingBind (loadRecord_namespaces _ _ _) (.pure _) fun bytes => ?_
    cases hkey : toIdentityKey bytes with
    | none =>
      simp only [hkey]
      exact .pure _
    | some key =>
      simp only [hkey]
      exact keepsSeal_mirroring _ _

theorem keepsSeal_getSession (address : String) :
    KeepsSeal maintainer action i ∅ none (Threaded.getSession P address) := by
  refine keepsSeal_lookup fun r => ?_
  cases r with
  | some session => exact .pure _
  | none =>
    exact .readingBind (loadRecord_namespaces _ _ _) (.pure _) fun _ => keepsSeal_mirroring _ _

theorem keepsSeal_getSyncKey (keyId : Bytes) :
    KeepsSeal maintainer action i ∅ none (Threaded.getSyncKey P keyId) := by
  refine keepsSeal_lookup fun r => ?_
  cases r with
  | some key => exact .pure _
  | none =>
    exact .readingBind (fun _ => (loadSyncKey_readOnly keyId).keeps) (.pure _)
      fun _ => keepsSeal_mirroring _ _

theorem keepsSeal_putSession (address : String) (session : Bytes) :
    KeepsSeal maintainer action i ∅ none (Threaded.putSession P address session) := by
  unfold Threaded.putSession
  split_ifs with hlen
  · exact .throw _
  · refine .writing (by simp) (.withInner (by simp) ?_)
    refine (KeepsSeal.mirrors (mirrorsOnly_gate _ _ _ _)).bind fun _ => ?_
    refine (KeepsSeal.jobLocked (by simp)).bind fun name => ?_
    cases encodeRecord (asBytes address) session with
    | error e => exact .throw _
    | ok record =>
      exact (KeepsSeal.jobLocked (by simp)).bind fun _ => .mirrors (mirrorsOnly_update _)

theorem keepsSeal_setSyncKey (keyId : Bytes) (key : SyncKey) :
    KeepsSeal maintainer action i ∅ none (Threaded.setSyncKey P keyId key) := by
  refine .writing (by simp) (.withInner (by simp) ?_)
  refine (KeepsSeal.mirrors (mirrorsOnly_gate _ _ _ _)).bind fun _ => ?_
  cases P.syncKey.toVec key with
  | error e => exact .throw _
  | ok payload =>
    exact (KeepsSeal.jobLocked (by simp)).bind fun _ => .mirrors (mirrorsOnly_update _)

theorem keepsSeal_hasSignalStateForUser (user : String) :
    KeepsSeal maintainer action i ∅ none (Threaded.hasSignalStateForUser P user) := by
  have hjob : ∀ ns, Keeps (fun f : FlashNamespaces => f.namespaces = ns) (do
      let sessions ← namespaceAddresses P (.records .sessions) "session"
      let identities ← namespaceAddresses P (.records .identities) "identity"
      pure (sessions ++ identities)) := fun ns =>
    (namespaceAddresses_readOnly _ _).keeps.bind fun _ =>
      (namespaceAddresses_readOnly _ _).keeps.bind fun _ => .pure _
  refine KeepsSeal.bind (keepsSeal_mirrored _) fun mirrored => ?_
  split_ifs
  · exact .pure _
  · exact .pure _
  · exact (KeepsSeal.job fun _ => hjob).bind fun _ => .pure _

/-- Every call of the other threads keeps to the protocol. -/
theorem keepsSeal_task (call : Call Device SyncKey α) (hcall : call.isCallers = true) :
    KeepsSeal maintainer action i ∅ none (task P call) := by
  cases call with
  | putIdentity address key => exact keepsSeal_gatedWrite
  | putIdentitiesBatch entries =>
    show KeepsSeal _ _ _ _ _ (Threaded.putIdentitiesBatch P entries)
    unfold Threaded.putIdentitiesBatch
    split_ifs with hnil
    · exact .pure _
    · exact .writing (by simp) (keepsSeal_batch entries)
  | loadIdentity address => exact keepsSeal_loadIdentity address
  | deleteIdentity address => exact keepsSeal_plainWrite
  | putSession address session => exact keepsSeal_putSession address session
  | putSessionsBatch entries =>
    show KeepsSeal _ _ _ _ _ (Threaded.putSessionsBatch P entries)
    unfold Threaded.putSessionsBatch
    split_ifs with hnil
    · exact .pure _
    · exact .writing (by simp) (keepsSeal_batch entries)
  | getSession address => exact keepsSeal_getSession address
  | deleteSession address => exact keepsSeal_plainWrite
  | hasSignalStateForUser user => exact keepsSeal_hasSignalStateForUser user
  | storePrekey id record => exact keepsSeal_gatedWrite
  | loadPrekey id => exact keepsSeal_mirrored _
  | removePrekey id => exact keepsSeal_plainWrite
  | storeSignedPrekey id record => exact keepsSeal_gatedWrite
  | loadSignedPrekey id => exact keepsSeal_mirrored _
  | removeSignedPrekey id => exact keepsSeal_plainWrite
  | putSenderKey address record => exact keepsSeal_gatedWrite
  | getSenderKey address => exact keepsSeal_mirrored _
  | deleteSenderKey address => exact keepsSeal_plainWrite
  | setSyncKey keyId key => exact keepsSeal_setSyncKey keyId key
  | getSyncKey keyId => exact keepsSeal_getSyncKey keyId
  | getLatestSyncKeyId => exact keepsSeal_mirrored _
  | save device => exact keepsSeal_plainWrite
  | listSessions =>
    show KeepsSeal _ _ _ _ _ (Threaded.listSessions P)
    unfold Threaded.listSessions
    split_ifs
    · exact keepsSeal_mirrored _
    · exact .job fun _ _ => (namespaceAddresses_readOnly _ _).keeps
  | clearSessions => cases hcall
  | reset => cases hcall
  | sealWrites => cases hcall
  | reboot => cases hcall

end

/-! ### The maintenance thread -/

/-- Behind the seal, with the partition as `Q` says. -/
def Behind (Q : (Ns → Namespace) → Prop) (s : NvsStore Device SyncKey) : Prop :=
  s.acceptingWrites = false ∧ Q s.flash.namespaces

/-- A part of the erasure, behind the seal. -/
def KeepsErasing (maintainer : ι) (action : Maintenance) (Pre Q : (Ns → Namespace) → Prop)
    (H : Set Lock) (p : StoreT Device SyncKey α) : Prop :=
  Ensures (sealing Device SyncKey maintainer action) maintainer H none (Behind Pre) p
    (fun _ => Behind Q) (Behind fun _ => True)

section

omit [DecidableEq ι]

/-- Behind the seal nobody else writes. -/
theorem stable_behind {Q : (Ns → Namespace) → Prop} :
    Stable (sealing Device SyncKey maintainer action) maintainer H w (Behind Q) := by
  intro s s' hs henv
  refine ⟨henv.2.1 hs.1, ?_⟩
  rw [henv.2.2 rfl hs.1]
  exact hs.2

namespace KeepsErasing

variable {Pre Q R : (Ns → Namespace) → Prop}

theorem pure (a : α) : KeepsErasing maintainer action Q Q H
    (Pure.pure a : StoreT Device SyncKey α) := Ensures.pure a fun _ => id

theorem bind {p : StoreT Device SyncKey α} {k : α → StoreT Device SyncKey β}
    (h : KeepsErasing maintainer action Pre Q H p)
    (hk : ∀ a, KeepsErasing maintainer action Q R H (k a)) :
    KeepsErasing maintainer action Pre R H (p >>= k) := Ensures.bind h hk

theorem job {j : FlashM α} (hop : .operation ∈ H)
    (hj : Triple (fun _ => True) j (fun _ f => Q f.namespaces) (fun _ _ => True) fun _ => True) :
    KeepsErasing maintainer action Pre Q H (Threaded.job j : StoreT Device SyncKey α) := by
  refine Ensures.act stable_behind fun s hs => ?_
  refine ⟨⟨fun hnop => absurd hop hnop, id, fun hne => absurd rfl hne⟩, ?_⟩
  have hsealed : (run j s).2.acceptingWrites = false := hs.1
  have hrun := triple_runFlash hj s trivial
  generalize run j s = r at hsealed hrun
  obtain ⟨a | e | _, s'⟩ := r
  · exact ⟨hsealed, hrun⟩
  · exact ⟨hsealed, trivial⟩
  · trivial

theorem mirrors (f : StoreInner Device SyncKey → StoreInner Device SyncKey) :
    KeepsErasing maintainer action Q Q H (Threaded.mirrors (update f)) := by
  refine Ensures.act stable_behind fun s hs => ⟨?_, hs⟩
  exact ⟨fun _ => ⟨rfl, rfl⟩, id, fun hne => absurd rfl hne⟩

theorem withLock {l : Lock} {p : StoreT Device SyncKey α} (hl : l ∉ H)
    (h : KeepsErasing maintainer action Pre Q (insert l H) p) :
    KeepsErasing maintainer action Pre Q H (Thread.withLock l p) := by
  refine Ensures.withLock hl (fun s s' hs henv _ => stable_behind s s' hs henv) h ?_ ?_
  · exact fun _ s s' hs henv => ⟨trivial, stable_behind s s' hs henv⟩
  · exact fun s s' hs henv => ⟨trivial, stable_behind s s' hs henv⟩

end KeepsErasing

end

section

omit [DecidableEq ι]

theorem keepsErasing_erase :
    KeepsErasing maintainer action (fun _ => True) action.Erased ∅ (action.erase P) := by
  cases action with
  | reset =>
    refine .withLock (by simp) (.withLock (by simp) ?_)
    refine (KeepsErasing.job (by simp) ?_).bind fun _ => .mirrors _
    refine Triple.ofState fun f _ => ?_
    refine (resetAll_doomed (w := .rough) f.namespaces).weaken ?_ ?_ ?_ ?_
    · rintro _ rfl
      exact ⟨rough_allows _, rfl⟩
    · exact fun _ f' h => ⟨h.2.device, h.2.records⟩
    · exact fun _ _ _ => trivial
    · exact fun _ _ => trivial
  | clearSessions =>
    refine KeepsErasing.bind ?_ fun _ => .pure _
    refine .withLock (by simp) (.withLock (by simp) ?_)
    refine (KeepsErasing.job (by simp) ?_).bind fun _ => .bind (.mirrors _) fun _ => .pure _
    refine Triple.bind (M := fun _ _ => True) (Triple.ofState fun f _ => Triple.ofRun trivial)
      fun _ => Triple.bind (M := fun _ _ => True) (Triple.modify _ fun _ _ => trivial) fun _ => ?_
    refine Triple.bind (M := fun _ f => Maintenance.clearSessions.Erased f.namespaces) ?_
      fun _ => Triple.pure _ fun _ => id
    refine Triple.ofState fun f _ => ?_
    refine (eraseNamespace_spec (w := .rough) _ _ (rough_allows _)).weaken (fun _ => id) ?_ ?_ ?_
    · intro _ f' hw
      show f'.namespaces (.records .sessions) = ∅
      rw [hw.namespaces, Function.update_self]
    · exact fun _ _ _ => trivial
    · exact fun _ _ => trivial

theorem sat_maintain (s : NvsStore Device SyncKey) :
    Sat (sealing Device SyncKey maintainer action) maintainer
      (Done (sealing Device SyncKey maintainer action) maintainer) ∅ none (maintain P action) s := by
  have hseal : Ensures (sealing Device SyncKey maintainer action) maintainer ∅ none
      (fun _ => True) Threaded.sealWrites (fun _ => Behind fun _ => True)
      (Behind fun _ => True) := by
    refine Ensures.withLock (K := fun _ => True) (M := fun _ => Behind fun _ => True)
      (F := Behind fun _ => True) (by simp) (fun _ _ _ _ _ => trivial) ?_ ?_ ?_
    · refine Ensures.act (fun _ _ _ _ => trivial) fun s _ => ⟨?_, rfl, trivial⟩
      exact ⟨fun hop => absurd (Set.mem_insert _ _) hop, fun _ => rfl, fun hne => absurd rfl hne⟩
    · exact fun _ s s' hs henv => ⟨trivial, stable_behind s s' hs henv⟩
    · exact fun s s' hs henv => ⟨trivial, stable_behind s s' hs henv⟩
  refine (hseal.bind fun _ => keepsErasing_erase).done trivial ?_ ?_
  · exact fun _ s s' hs henv _ => ⟨(stable_behind s s' hs henv).1, fun _ =>
      (stable_behind s s' hs henv).2⟩
  · exact fun _ s s' hs henv _ => ⟨(stable_behind s s' hs henv).1, nofun⟩

variable (P action) in
theorem maintain_eq : ∃ watch next, maintain P action = .acquire .operation
    (.act (fun s => { s with acceptingWrites := false }) watch next) := ⟨_, _, rfl⟩

variable (P action) in
theorem erase_eq : ∃ p, action.erase P = .acquire .operation (.acquire .inner p) := by
  cases action with
  | reset => exact ⟨_, rfl⟩
  | clearSessions => exact ⟨_, rfl⟩

end

/-! ### Runs -/

variable {s : NvsStore Device SyncKey}
  {c c' : Config ι Lock (Kind × Bytes) (NvsStore Device SyncKey) (Except StoreError Unit)}

theorem sealStart_inv :
    Inv (sealing Device SyncKey maintainer action) (sealStart P maintainer action s) := by
  refine ⟨fun i => ?_, fun _ _ => trivial⟩
  rw [sealStart, Config.held_start]
  by_cases hi : i = maintainer
  · subst hi
    simp only [Config.start, if_true]
    exact sat_maintain s
  · simp only [Config.start, if_neg hi]
    exact ⟨rfl, rfl, fun _ _ h => absurd h hi⟩

theorem sealCalls_sat (r : Except StoreError Unit) (p : StoreThread Device SyncKey)
    (h : sealCalls P maintainer action i r p) (s : NvsStore Device SyncKey) :
    Sat (sealing Device SyncKey maintainer action) i
      (Done (sealing Device SyncKey maintainer action) i) ∅ none p s := by
  unfold sealCalls at h
  split_ifs at h with hi
  · obtain ⟨-, rfl⟩ := h
    rw [hi]
    exact sat_maintain s
  · obtain ⟨α, call, hcall, rfl⟩ := h
    refine Ensures.done ((keepsSeal_task call hcall).bind fun _ => .pure ()) (by simp [Unsealed])
      ?_ ?_
    · exact fun _ _ _ _ _ h => absurd h hi
    · exact fun _ _ _ _ _ h => absurd h hi

theorem inv_of_run (h : Inv (sealing Device SyncKey maintainer action) c)
    (hrun : Relation.ReflTransGen (AnyStep (sealCalls P maintainer action) fun _ _ => True) c c') :
    Inv (sealing Device SyncKey maintainer action) c' :=
  h.run sealing_lawful (fun _ r p hp s _ => sealCalls_sat r p hp s) hrun

/-- The seal is never lifted. -/
theorem sealed_step (h : Inv (sealing Device SyncKey maintainer action) c)
    (hstep : Step (sealCalls P maintainer action) i c c')
    (hsealed : c.state.acceptingWrites = false) : c'.state.acceptingWrites = false := by
  rcases h.step_state sealing_lawful hstep with heq | hguar
  · rw [heq]
    exact hsealed
  · exact hguar.2.1 hsealed

theorem sealed_run (h : Inv (sealing Device SyncKey maintainer action) c)
    (hrun : Relation.ReflTransGen (AnyStep (sealCalls P maintainer action) fun _ _ => True) c c')
    (hsealed : c.state.acceptingWrites = false) : c'.state.acceptingWrites = false := by
  induction hrun with
  | refl => exact hsealed
  | tail hrun hstep ih =>
    obtain ⟨j, hstep, -⟩ := hstep
    exact sealed_step (inv_of_run h hrun) hstep ih

/-- Once the maintenance thread is past its first store, the flag is down. -/
theorem SealRun.flag (hrun : SealRun P maintainer action s c) :
    c.threads maintainer = maintain P action ∨
      .acquire .operation (c.threads maintainer) = maintain P action ∨
      c.state.acceptingWrites = false := by
  obtain ⟨watch, next, hmaintain⟩ := maintain_eq P action
  induction hrun with
  | refl =>
    left
    simp only [sealStart, Config.start, if_true]
  | @tail c₁ c₂ hrun hstep ih =>
    obtain ⟨j, hstep, -⟩ := hstep
    by_cases hj : maintainer = j
    · subst hj
      rcases ih with h | h | h
      · -- the thread is about to take the mutex
        right
        left
        rw [hmaintain] at h ⊢
        cases hstep with
        | start hret => exact nomatch hret.symm.trans h
        | acquire hnext =>
          obtain ⟨rfl, rfl⟩ := Thread.acquire.inj (hnext.symm.trans h)
          simp only [Function.update_self]
        | release hnext => exact nomatch hnext.symm.trans h
        | act hnext => exact nomatch hnext.symm.trans h
      · -- it holds the mutex and is about to store the flag
        right
        right
        rw [hmaintain] at h
        have hact := (Thread.acquire.inj h).2
        cases hstep with
        | start hret => exact nomatch hret.symm.trans hact
        | acquire hnext => exact nomatch hnext.symm.trans hact
        | release hnext => exact nomatch hnext.symm.trans hact
        | act hnext =>
          obtain ⟨rfl, -, -⟩ := Thread.act.inj (hnext.symm.trans hact)
          rfl
      · exact Or.inr (Or.inr (sealed_step (inv_of_run sealStart_inv hrun) hstep h))
    · rw [hstep.threads_of_ne hj]
      exact ih.imp_right fun h => h.imp_right
        (sealed_step (inv_of_run sealStart_inv hrun) hstep)

theorem SealReturned.sealed (hrun : SealRun P maintainer action s c)
    (h : SealReturned P maintainer action c) : c.state.acceptingWrites = false := by
  obtain ⟨watch, next, hmaintain⟩ := maintain_eq P action
  obtain ⟨p, herase⟩ := erase_eq P action
  have hthread : c.threads maintainer = .acquire .operation (.acquire .inner p) := h.trans herase
  rcases hrun.flag with h | h | h
  · rw [hthread, hmaintain] at h
    exact nomatch h
  · rw [hthread, hmaintain] at h
    exact nomatch h
  · exact h

/-- A maintenance thread that has succeeded does nothing more. -/
theorem finished_run
    (hrun : Relation.ReflTransGen (AnyStep (sealCalls P maintainer action) fun _ _ => True) c c')
    (h : c.threads maintainer = .ret (.ok ())) : c'.threads maintainer = .ret (.ok ()) := by
  induction hrun with
  | refl => exact h
  | tail _ hstep ih =>
    obtain ⟨j, hstep, -⟩ := hstep
    by_cases hj : maintainer = j
    · subst hj
      cases hstep with
      | start hret hcall =>
        have hr := Thread.ret.inj (hret.symm.trans ih)
        rw [sealCalls, if_pos rfl] at hcall
        exact absurd hr hcall.1
      | acquire hnext => exact nomatch hnext.symm.trans ih
      | release hnext => exact nomatch hnext.symm.trans ih
      | act hnext => exact nomatch hnext.symm.trans ih
    · rw [hstep.threads_of_ne hj]
      exact ih

/-- **Nothing is written behind the seal.**  From the moment `seal_writes` has returned no step of
another thread changes the partition, and from the moment the erasure has succeeded the partition
stays erased. -/
theorem nothing_written_behind_seal (P : Platform Device SyncKey) (maintainer : ι)
    (action : Maintenance) (s : NvsStore Device SyncKey) (hrun : SealRun P maintainer action s c)
    (hlater : Relation.ReflTransGen
      (AnyStep (sealCalls P maintainer action) fun _ _ => True) c c') :
    (SealReturned P maintainer action c → ∀ i c'', i ≠ maintainer →
      Step (sealCalls P maintainer action) i c' c'' →
      c''.state.flash.namespaces = c'.state.flash.namespaces) ∧
    (c.threads maintainer = .ret (.ok ()) → action.Erased c'.state.flash.namespaces) := by
  have hinv := inv_of_run sealStart_inv hrun
  have hinv' := inv_of_run hinv hlater
  constructor
  · intro hreturned i c'' hi hstep
    have hsealed := sealed_run hinv hlater (hreturned.sealed hrun)
    rcases hinv'.step_state sealing_lawful hstep with heq | hguar
    · rw [heq]
    · exact (hguar.2.2 hi).2 hsealed
  · intro hdone
    have hthread := hinv'.threads maintainer
    rw [finished_run hlater hdone] at hthread
    exact (hthread.2.2 _ (sealing_lawful.refl _ _ _ _) rfl).2 rfl

/-- The linked store, right after `seal_writes` has returned. -/
def sealedStore : Config Bool Lock (Kind × Bytes) (NvsStore Bytes Bytes) (Except StoreError Unit) :=
  (sealStart aliceBoard true .reset linkedStore).schedule [true, true, true]

/-- Then a caller tries to store an identity. -/
def lateWriter : Config Bool Lock (Kind × Bytes) (NvsStore Bytes Bytes) (Except StoreError Unit) :=
  sealedStore.call false (callThread aliceBoard (.putIdentity "bob" aliceKey))

/-- The erasure goes on and succeeds. -/
def erasedStore : Config Bool Lock (Kind × Bytes) (NvsStore Bytes Bytes) (Except StoreError Unit) :=
  sealedStore.schedule [true, true, true, true, true, true]

theorem sealedStore_unwritten :
    ((lateWriter.schedule [false, false]).state.flash.namespaces =
      (lateWriter.schedule [false]).state.flash.namespaces) ∧
    Maintenance.reset.Erased erasedStore.state.flash.namespaces := by
  have hsealed : SealRun aliceBoard true .reset linkedStore sealedStore :=
    Config.schedule_run _ _ fun _ _ => trivial
  have herased : SealRun aliceBoard true .reset linkedStore erasedStore :=
    hsealed.trans (Config.schedule_run _ _ fun _ _ => trivial)
  have hcall : Relation.ReflTransGen (AnyStep (sealCalls aliceBoard true .reset) fun _ _ => True)
      sealedStore lateWriter := Config.call_run (b := .ok ()) rfl ⟨_, _, rfl, rfl⟩ trivial
  obtain ⟨f, watch, next, hcheck⟩ : ∃ f watch next,
      (lateWriter.schedule [false]).threads false = .act f watch next := ⟨_, _, _, rfl⟩
  constructor
  · exact (nothing_written_behind_seal aliceBoard true .reset linkedStore hsealed
      (hcall.trans (Config.schedule_run [false] _ fun _ _ => trivial))).1 rfl false _ (by decide)
      (Config.next_act hcheck)
  · exact (nothing_written_behind_seal aliceBoard true .reset linkedStore herased .refl).2 rfl

end WhatsappEsp32
