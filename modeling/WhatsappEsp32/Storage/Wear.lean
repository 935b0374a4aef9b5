import WhatsappEsp32.Storage.Caps
import WhatsappEsp32.Storage.Reset

/-!
# Stores after failures

`Reachable` follows runs whose primitives succeed or are cut off by a power loss.  Here a primitive
may also fail, with or without an effect, and the store goes on: the mirrors may then differ from
the flash, but the flash itself keeps its invariant.

* `WornStep`, `WornReachable`: boots, calls and power losses with any fates;
* `keeps_flashOk`: a job that is specified in any weather keeps the invariant of the flash;
* `exec_flashOk`: so does every call, and `WornReachable.flashOk`: every run.
-/

namespace WhatsappEsp32

open CrashLogic FlashNamespaces NvsStore

variable {Device SyncKey α : Type}

/-! ### The system -/

/-- Any primitive of a call or a boot may fail or be cut off. -/
inductive WornStep (P : Platform Device SyncKey) :
    Machine Device SyncKey → Machine Device SyncKey → Prop
  | boot (namespaces : Ns → Namespace) (fates : List Fate) :
      WornStep P (.off namespaces) (Machine.afterOpen (openPartition P namespaces fates))
  | call (s : NvsStore Device SyncKey) {α : Type} (call : Call Device SyncKey α)
      (hcall : call.isReboot = false) (fates : List Fate) :
      WornStep P (.on s) (Machine.afterCall (exec P call (Machine.withFates s fates)))
  | powerLoss (s : NvsStore Device SyncKey) : WornStep P (.on s) (.off s.flash.namespaces)

/-- Reachable from an empty partition, whatever fails on the way. -/
def WornReachable (P : Platform Device SyncKey) (machine : Machine Device SyncKey) : Prop :=
  Relation.ReflTransGen (WornStep P) (.off emptyPartition) machine

variable {P : Platform Device SyncKey} {m : Image Device}

/-! ### Jobs -/

theorem FlashOk.shows {f : FlashNamespaces} (h : FlashOk P f) :
    Shows P .rough (image P f.namespaces) f := ⟨h, rfl, rough_allows _⟩

/-- A job that moves from any content to some content keeps the invariant. -/
theorem keeps_flashOk {job : FlashM α} (h : ∀ m, Triple (Shows P .rough m) job
    (fun _ f => ∃ m', Shows P .rough m' f) (fun _ f => ∃ m', Shows P .rough m' f)
    (fun f => ∃ m', Shows P .rough m' f)) : Keeps (FlashOk P) job := by
  have hok : ∀ f, (∃ m', Shows P .rough m' f) → FlashOk P f := fun f ⟨_, hf⟩ => hf.ok
  refine Triple.ofState fun f hf => ?_
  refine (h (image P f.namespaces)).weaken ?_ (fun _ => hok) (fun _ => hok) hok
  rintro _ rfl
  exact hf.shows

theorem exists_of_refused {m' : Image Device} {f : FlashNamespaces}
    (h : Shows P .rough m f ∨ Torn P .rough True m m' f) : ∃ m'', Shows P .rough m'' f := by
  rcases h with h | h
  · exact ⟨m, h⟩
  · exact h.broken.2

theorem putRecord_flashOk (kind : Kind) (k v : Bytes) (label : String) (hkey : kind.KeyOk k)
    (hv : v.length ≤ maxSignalRecordLen → kind.ValueOk P v) :
    Keeps (FlashOk P) (putRecord P (.records kind) k v label kind.maxEntries) :=
  keeps_flashOk fun _ => (putRecord_spec kind k v label hkey hv).weaken (fun _ => id)
    (fun _ _ h => ⟨_, h⟩) (fun _ _ => exists_of_refused) fun _ h => h.broken.2

theorem deleteRecord_flashOk (kind : Kind) (k : Bytes) (label : String) :
    Keeps (FlashOk P) (deleteRecord P (.records kind) k label) :=
  keeps_flashOk fun _ => (deleteRecord_spec kind k label).weaken (fun _ => id)
    (fun _ _ h => ⟨_, h⟩) (fun _ _ => exists_of_refused) fun _ h => h.broken.2

theorem loadRecord_flashOk (kind : Kind) (k : Bytes) (maxValueLen : ℕ)
    (hmax : ∀ v, kind.ValueOk P v → v.length ≤ maxValueLen) :
    Keeps (FlashOk P) (loadRecord P (.records kind) k maxValueLen) :=
  keeps_flashOk fun _ => (loadRecord_spec kind k maxValueLen hmax).weaken (fun _ => id)
    (fun _ _ h => ⟨_, h.1⟩) (fun _ _ => False.elim) fun _ => False.elim

theorem addressesOf_readOnly (n : Ns) (label : String) (names : List String) :
    ReadOnly FlashNamespaces.namespaces (addressesOf n label names) := by
  induction names with
  | nil => exact .pure _
  | cons name names ih =>
    refine .bind (readBlob_readOnly_all _ _ _) fun blob => ?_
    cases blob with
    | none => exact ih
    | some record =>
      refine .bind (.ofExcept _) fun entry => ?_
      cases hkey : fromUtf8 entry.1 with
      | none =>
        simp only [hkey]
        exact .throw _
      | some address =>
        simp only [hkey]
        exact .bind ih fun _ => .pure _

theorem namespaceAddresses_readOnly (n : Ns) (label : String) :
    ReadOnly FlashNamespaces.namespaces (namespaceAddresses P n label) :=
  .bind (recordNames_readOnly n) (addressesOf_readOnly n label)

theorem namespaceAddresses_flashOk (n : Ns) (label : String) :
    Keeps (FlashOk P) (namespaceAddresses P n label) := (namespaceAddresses_readOnly n label).keeps

theorem clearSessions_flashOk : Keeps (FlashOk P) (do
    let count ← recordCount (.records .sessions)
    Prog.modify clearSlots
    eraseNamespace P (.records .sessions) "session"
    pure count) :=
  keeps_flashOk fun _ => clearSessionsJob_spec.weaken (fun _ => id) (fun _ _ h => ⟨_, h⟩)
    (fun _ _ h => h.2) fun _ h => h.2

/-! ### Calls -/

/-- A job on the flash worker is specified by what it does to the flash. -/
theorem triple_runFlash {Pre : FlashNamespaces → Prop} {job : FlashM α}
    {Q : α → FlashNamespaces → Prop} {E : StoreError → FlashNamespaces → Prop}
    {C : FlashNamespaces → Prop} (h : Triple Pre job Q E C) :
    Triple (fun s : NvsStore Device SyncKey => Pre s.flash) (run job) (fun a s => Q a s.flash)
      (fun e s => E e s.flash) (fun s => C s.flash) :=
  Triple.zoom fun t ht => h.pre fun f hf => by rw [hf]; exact ht

theorem keeps_runFlash {I : FlashNamespaces → Prop} {job : FlashM α} (h : Keeps I job) :
    Keeps (fun s : NvsStore Device SyncKey => I s.flash) (run job) := triple_runFlash h

theorem keeps_updateFlash {I : FlashNamespaces → Prop}
    (f : StoreInner Device SyncKey → StoreInner Device SyncKey) :
    Keeps (fun s : NvsStore Device SyncKey => I s.flash) (update f) :=
  Triple.modify _ fun _ hs => hs

theorem writeOperation_state (s : NvsStore Device SyncKey) : (writeOperation s).2 = s := by
  unfold writeOperation
  rw [Prog.bind_of_ok (Prog.get_run s)]
  split_ifs <;> rfl

theorem mirrorGate_state (has : StoreInner Device SyncKey → Bool)
    (len : StoreInner Device SyncKey → ℕ) (max : ℕ) (label : String)
    (s : NvsStore Device SyncKey) : (mirrorGate has len max label s).2 = s := by
  obtain h | ⟨e, h⟩ := mirrorGate_cases has len max label s <;> rw [h]

section

variable {I : FlashNamespaces → Prop} {job : FlashM α}

/-- A gated write keeps what its job keeps. -/
theorem keeps_gatedFlash {has : StoreInner Device SyncKey → Bool}
    {len : StoreInner Device SyncKey → ℕ} {max : ℕ} {label : String}
    {f : StoreInner Device SyncKey → StoreInner Device SyncKey} (h : Keeps I job) :
    Keeps (fun s : NvsStore Device SyncKey => I s.flash) (do
      mirrorGate has len max label
      let _ ← run job
      update f) :=
  Keeps.bind (.of_state (mirrorGate_state has len max label)) fun _ =>
    (keeps_runFlash h).bind fun _ => keeps_updateFlash f

theorem keeps_writeFlash {p : StoreM Device SyncKey α}
    (h : Keeps (fun s : NvsStore Device SyncKey => I s.flash) p) :
    Keeps (fun s : NvsStore Device SyncKey => I s.flash) (writeOperation >>= fun _ => p) :=
  Keeps.bind (.of_state writeOperation_state) fun _ => h

/-- So does a write without a gate. -/
theorem keeps_ungatedFlash {f : StoreInner Device SyncKey → StoreInner Device SyncKey}
    (h : Keeps I job) : Keeps (fun s : NvsStore Device SyncKey => I s.flash) (do
      writeOperation
      let _ ← run job
      update f) :=
  keeps_writeFlash ((keeps_runFlash h).bind fun _ => keeps_updateFlash f)

end

theorem putIdentityBody_flashOk (address : String) (key : IdentityKey) :
    Keeps (fun s : NvsStore Device SyncKey => FlashOk P s.flash) (putIdentityBody P address key) :=
  keeps_gatedFlash (putRecord_flashOk .identities _ _ _ ⟨address, rfl⟩ fun _ => key.2)

theorem putSessionBody_flashOk (address : String) (session : Bytes) :
    Keeps (fun s : NvsStore Device SyncKey => FlashOk P s.flash)
      (putSessionBody P address session) :=
  keeps_gatedFlash (putRecord_flashOk .sessions _ _ _ ⟨address, rfl⟩ fun h => h)

/-- The check and the write of `put_session` are two jobs. -/
theorem putSession_flashOk (address : String) (session : Bytes) :
    Keeps (fun s : NvsStore Device SyncKey => FlashOk P s.flash) (putSession P address session) := by
  refine Keeps.ite (fun _ => .throw _) fun hlen => keeps_writeFlash ?_
  refine Keeps.bind (.of_state (mirrorGate_state _ _ _ _)) fun _ => ?_
  have hcheck : Triple (FlashOk P) (checkRecordSlot P (.records .sessions) (asBytes address)
      session.length "session" maxSessions)
      (fun name f => FlashOk P f ∧ Admits P .sessions (asBytes address) name f)
      (fun _ => FlashOk P) (FlashOk P) := by
    refine Triple.ofState fun f hf => ?_
    refine (checkRecordSlot_spec (w := .rough) (m := image P f.namespaces) .sessions
      (asBytes address) session.length "session").weaken ?_
      (fun _ _ h => ⟨h.1.ok, h.2.1⟩) (fun _ _ h => h.ok) fun _ => False.elim
    rintro _ rfl
    exact hf.shows
  refine Triple.bind (triple_runFlash hcheck) fun name => ?_
  refine Triple.ofFact (fun s h => h.2.length_le) fun hk => ?_
  rw [encodeRecord_of_le hk, Prog.ofExcept_ok_bind]
  have hv : Kind.ValueOk P .sessions session := Nat.le_of_not_gt hlen
  have hwrite : Triple (fun f => FlashOk P f ∧ Admits P .sessions (asBytes address) name f)
      (setBlob (.records .sessions) name (record (asBytes address) session))
      (fun _ => FlashOk P) (fun _ => FlashOk P) (FlashOk P) := by
    refine Triple.ofState fun f hf => ?_
    refine (setBlob_spec (w := .rough) (m := image P f.namespaces) .sessions (asBytes address)
      session name ⟨address, rfl⟩ hv).weaken ?_
      (fun _ _ h => h.ok) (fun _ _ h => ?_) fun _ h => ?_
    · rintro _ rfl
      exact ⟨hf.1.shows, hf.2⟩
    · obtain ⟨-, _, hm⟩ := h.broken
      exact hm.ok
    · obtain ⟨-, _, hm⟩ := h.broken
      exact hm.ok
  exact Triple.bind (triple_runFlash hwrite) fun _ => keeps_updateFlash _

theorem setSyncKey_flashOk (keyId : Bytes) (key : SyncKey) :
    Keeps (fun s : NvsStore Device SyncKey => FlashOk P s.flash) (setSyncKey P keyId key) := by
  refine keeps_writeFlash (Keeps.bind (.of_state (mirrorGate_state _ _ _ _)) fun _ => ?_)
  cases hvec : P.syncKey.toVec key with
  | error e => exact .throw _
  | ok payload =>
    have hdec := P.syncKey.fromSlice_toVec key payload hvec
    have hjob : Keeps (FlashOk P) (writeSyncKey P keyId payload) :=
      keeps_flashOk fun m => (writeSyncKey_spec keyId payload hdec).weaken (fun _ => id)
        (fun _ _ h => ⟨_, h⟩) (fun _ _ h => h.elim (fun h => ⟨_, h⟩) fun h => h.2) fun _ h => h.2
    exact (keeps_runFlash hjob).bind fun _ => keeps_updateFlash _

theorem openFlash_flashOk : Keeps (FlashOk P) (openFlash P) :=
  keeps_flashOk fun _ => openFlash_spec.weaken (fun _ => id) (fun _ _ h => ⟨_, h.1⟩)
    (fun _ _ h => h.2) fun _ h => h.2

theorem loadIdentity_flashOk (address : String) :
    Keeps (fun s : NvsStore Device SyncKey => FlashOk P s.flash) (loadIdentity P address) := by
  refine Keeps.bind (.of_state fun _ => rfl) fun mirrored => ?_
  cases mirrored with
  | some key => exact (keeps_updateFlash _).bind fun _ => .pure _
  | none =>
    refine (keeps_runFlash (loadRecord_flashOk .identities _ 32 fun v hv => le_of_eq hv)).bind
      fun loaded => ?_
    cases loaded with
    | none => exact .pure _
    | some bytes =>
      cases hkey : toIdentityKey bytes with
      | none => simpa only [hkey] using Keeps.pure _
      | some key =>
        simp only [hkey]
        exact (keeps_updateFlash _).bind fun _ => .pure _

theorem getSession_flashOk (address : String) :
    Keeps (fun s : NvsStore Device SyncKey => FlashOk P s.flash) (getSession P address) := by
  refine Keeps.bind (.of_state fun _ => rfl) fun mirrored => ?_
  cases mirrored with
  | some session => exact (keeps_updateFlash _).bind fun _ => .pure _
  | none =>
    refine (keeps_runFlash (loadRecord_flashOk .sessions _ maxSignalRecordLen fun _ hv => hv.length_le)).bind
      fun loaded => ?_
    cases loaded with
    | none => exact .pure _
    | some session => exact (keeps_updateFlash _).bind fun _ => .pure _

theorem getSyncKey_flashOk (keyId : Bytes) :
    Keeps (fun s : NvsStore Device SyncKey => FlashOk P s.flash) (getSyncKey P keyId) := by
  have hjob : Keeps (FlashOk P) (loadSyncKey P keyId) :=
    keeps_flashOk fun m => (loadSyncKey_spec keyId).weaken (fun _ => id) (fun _ _ h => ⟨_, h.1⟩)
      (fun _ _ => False.elim) fun _ => False.elim
  refine Keeps.bind (.of_state fun _ => rfl) fun mirrored => ?_
  cases mirrored with
  | some key => exact (keeps_updateFlash _).bind fun _ => .pure _
  | none =>
    refine (keeps_runFlash hjob).bind fun loaded => ?_
    cases loaded with
    | none => exact .pure _
    | some key => exact (keeps_updateFlash _).bind fun _ => .pure _

theorem putIdentitiesBatch_flashOk (entries : List (String × IdentityKey)) :
    Keeps (fun s : NvsStore Device SyncKey => FlashOk P s.flash) (putIdentitiesBatch P entries) := by
  have hbody : ∀ entry : String × IdentityKey, Keeps (fun s : NvsStore Device SyncKey => FlashOk P s.flash)
      (putIdentityBody P entry.1 entry.2) := fun entry => putIdentityBody_flashOk entry.1 entry.2
  refine Keeps.ite (fun _ => .pure ()) fun _ => keeps_writeFlash ?_
  rw [putIdentities_eq]
  exact keeps_inTurn hbody entries

theorem putSessionsBatch_flashOk (entries : List (String × Bytes)) :
    Keeps (fun s : NvsStore Device SyncKey => FlashOk P s.flash) (putSessionsBatch P entries) := by
  have hbody : ∀ entry : String × Bytes, Keeps (fun s : NvsStore Device SyncKey => FlashOk P s.flash)
      (putSessionBody P entry.1 entry.2) := fun entry => putSessionBody_flashOk entry.1 entry.2
  refine Keeps.ite (fun _ => .pure ()) fun _ => keeps_writeFlash ?_
  rw [putSessions_eq]
  exact keeps_inTurn hbody entries

/-- Every call keeps the invariant of the flash, whatever fails. -/
theorem exec_flashOk (call : Call Device SyncKey α) (hcall : call.isReboot = false) :
    Keeps (fun s : NvsStore Device SyncKey => FlashOk P s.flash) (exec P call) := by
  have hread : ∀ {β : Type} (f : StoreInner Device SyncKey → β),
      Keeps (fun s : NvsStore Device SyncKey => FlashOk P s.flash) (withInner f) :=
    fun f => .of_state fun _ => rfl
  cases call with
  | putIdentity address key => exact keeps_writeFlash (putIdentityBody_flashOk address key)
  | putIdentitiesBatch entries => exact putIdentitiesBatch_flashOk entries
  | loadIdentity address => exact loadIdentity_flashOk address
  | deleteIdentity address => exact keeps_ungatedFlash (deleteRecord_flashOk .identities _ _)
  | putSession address session => exact putSession_flashOk address session
  | putSessionsBatch entries => exact putSessionsBatch_flashOk entries
  | getSession address => exact getSession_flashOk address
  | deleteSession address => exact keeps_ungatedFlash (deleteRecord_flashOk .sessions _ _)
  | hasSignalStateForUser user =>
    refine (hread _).bind fun _ => .ite (fun _ => .pure _) fun _ => .ite (fun _ => .pure _)
      fun _ => (keeps_runFlash ?_).bind fun _ => .pure _
    exact (namespaceAddresses_flashOk _ _).bind fun _ =>
      (namespaceAddresses_flashOk _ _).bind fun _ => .pure _
  | storePrekey id record =>
    exact keeps_writeFlash (keeps_gatedFlash
      (putRecord_flashOk .prekeys _ _ _ ⟨id, rfl⟩ fun h => h))
  | loadPrekey id => exact hread _
  | removePrekey id => exact keeps_ungatedFlash (deleteRecord_flashOk .prekeys _ _)
  | storeSignedPrekey id record =>
    exact keeps_writeFlash (keeps_gatedFlash
      (putRecord_flashOk .signedPrekeys _ _ _ ⟨id, rfl⟩ fun h => h))
  | loadSignedPrekey id => exact hread _
  | removeSignedPrekey id => exact keeps_ungatedFlash (deleteRecord_flashOk .signedPrekeys _ _)
  | putSenderKey address record =>
    exact keeps_writeFlash (keeps_gatedFlash
      (putRecord_flashOk .senderKeys _ _ _ ⟨address, rfl⟩ fun h => h))
  | getSenderKey address => exact hread _
  | deleteSenderKey address => exact keeps_ungatedFlash (deleteRecord_flashOk .senderKeys _ _)
  | setSyncKey keyId key => exact setSyncKey_flashOk keyId key
  | getSyncKey keyId => exact getSyncKey_flashOk keyId
  | getLatestSyncKeyId => exact hread _
  | save device =>
    refine keeps_ungatedFlash (keeps_flashOk fun m => ?_)
    exact (saveDevice_spec device).weaken (fun _ => id) (fun _ _ h => ⟨_, h⟩)
      (fun _ _ => exists_of_refused) fun _ h => h.broken.2
  | listSessions => exact .ite (fun _ => hread _) fun _ => keeps_runFlash (namespaceAddresses_flashOk _ _)
  | clearSessions =>
    exact (keeps_runFlash clearSessions_flashOk).bind fun _ => (keeps_updateFlash _).bind fun _ =>
      .pure _
  | reset =>
    refine (keeps_runFlash (keeps_flashOk fun m => ?_)).bind fun _ => keeps_updateFlash _
    exact resetAll_spec.weaken (fun _ => id) (fun _ _ h => ⟨_, h⟩) (fun _ _ h => h.2) fun _ h => h.2
  | sealWrites => exact Triple.modify _ fun _ hs => hs
  | reboot => cases hcall

/-! ### Runs -/

/-- A call that succeeds leads to a running store. -/
theorem WornReachable.call {s : NvsStore Device SyncKey} (h : WornReachable P (.on s))
    (call : Call Device SyncKey α) (hcall : call.isReboot = false) {a : α}
    (hfates : s.flash.fates.isEmpty = true) (hok : (exec P call s).1 = .ok a) :
    WornReachable P (.on (exec P call s).2) := by
  have hstep := h.tail (WornStep.call s call hcall [])
  rw [Machine.withFates_nil (List.isEmpty_iff.mp hfates)] at hstep
  generalize exec P call s = r at hok hstep ⊢
  obtain ⟨o, s'⟩ := r
  cases hok
  exact hstep

variable (P) in
/-- The invariant of the system. -/
def WornOk : Machine Device SyncKey → Prop
  | .off namespaces => DurableOk P namespaces
  | .on s => FlashOk P s.flash

theorem WornOk.step {machine machine' : Machine Device SyncKey} (h : WornOk P machine)
    (hstep : WornStep P machine machine') : WornOk P machine' := by
  cases hstep with
  | boot namespaces fates =>
    have hopen : FlashOk P (openPartition P namespaces fates).2 :=
      openFlash_flashOk.snd (s := ⟨namespaces, [], fates⟩) ⟨h, fun _ hslot => by cases hslot⟩
    generalize openPartition P namespaces fates = r at hopen
    obtain ⟨mirrors | e | _, flash⟩ := r
    · exact hopen
    · exact hopen.durable
    · exact hopen.durable
  | call s call hcall fates =>
    have hs : FlashOk P (Machine.withFates s fates).flash := ⟨h.durable, h.slots⟩
    have hnext := (exec_flashOk call hcall).snd hs
    generalize exec P call (Machine.withFates s fates) = r at hnext
    obtain ⟨a | e | _, s'⟩ := r
    · exact hnext
    · exact hnext
    · exact hnext.durable
  | powerLoss s => exact h.durable

/-- Whatever has failed, the partition of a running store keeps its invariant. -/
theorem WornReachable.flashOk {s : NvsStore Device SyncKey} (h : WornReachable P (.on s)) :
    FlashOk P s.flash := by
  have hok : ∀ machine, WornReachable P machine → WornOk P machine := by
    intro machine hmachine
    induction hmachine with
    | refl => exact durableOk_emptyPartition P
    | tail _ hstep ih => exact ih.step hstep
  exact hok _ h

end WhatsappEsp32
