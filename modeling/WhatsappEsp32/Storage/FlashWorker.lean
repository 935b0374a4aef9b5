import WhatsappEsp32.Lib.Worker
import WhatsappEsp32.Storage.Races

/-!
# The flash worker

The namespaces belong to the worker thread.  `FlashWorker::run` boxes a job together with the
sender of a rendezvous channel, puts it on a queue of one and waits for the result; the worker runs
the jobs one after the other.  The model of the concurrent calls takes each job as one action; here
the queue, the worker and the time a job takes are explicit, and any number of calls use them.

* `flashPart`: what the worker owns;
* `KeepsTidy`: a call touches the flash in jobs only, and takes `operation` before `inner`;
  `keepsTidy_task`: every call does;
* `flash_jobs_atomic`: over the worker the calls do what they do when each job is one action;
* `calls_return`: no call waits for ever.
-/

namespace WhatsappEsp32

open CrashLogic FlashNamespaces NvsStore Threads

variable {Device SyncKey α β : Type} {P : Platform Device SyncKey}

/-- `operation` is taken before `inner`. -/
def Lock.level : Lock → ℕ
  | .operation => 0
  | .inner => 1

theorem Lock.level_injective : Function.Injective level := by
  intro a b h
  cases a <;> cases b <;> first | rfl | cases h

instance : PartialOrder Lock := PartialOrder.lift Lock.level Lock.level_injective

theorem operation_lt_inner : Lock.operation < Lock.inner := Nat.zero_lt_one

instance : Finite Lock := Finite.of_injective (fun l => decide (l = Lock.inner)) (by
  intro a b h
  cases a <;> cases b <;> first | rfl | simp at h)

/-- The namespaces, which only the worker touches. -/
def flashPart : Part (NvsStore Device SyncKey) FlashNamespaces where
  look := NvsStore.flash
  put s flash := { s with flash }
  put_look _ := rfl
  look_put _ _ := rfl
  put_put _ _ _ := rfl

/-! ### Calls are tidy -/

/-- With the locks `H` held, `p` touches the flash in jobs only, takes the locks in order and ends
with the locks `H`. -/
def KeepsTidy (H : Set Lock) (p : StoreT Device SyncKey α) : Prop :=
  Tidy flashPart (fun _ H' => H' = H) H p

/-- `p` neither changes the flash nor looks at it. -/
def Apart (p : StoreM Device SyncKey α) : Prop :=
  ∀ s flash, p { s with flash } = ((p s).1, { (p s).2 with flash })

section

variable {H : Set Lock}

theorem job_run (j : FlashM α) (watch : Outcome StoreError α → Option (Kind × Bytes)) :
    (flashPart : Part (NvsStore Device SyncKey) FlashNamespaces).Job (fun s => (run j s).2)
      (fun s => watch (run j s).1)
      (fun s => (Thread.ofOutcome (run j s).1 : Thread Lock (Kind × Bytes) _ _)) :=
  ⟨fun flash => (j flash).2, fun flash => watch (j flash).1,
    fun flash => Thread.ofOutcome (j flash).1, fun _ => ⟨rfl, rfl, rfl⟩⟩

theorem tidy_ofOutcome (o : Outcome StoreError α) :
    Tidy (flashPart : Part (NvsStore Device SyncKey) FlashNamespaces) (fun _ H' => H' = H) H
      (Thread.ofOutcome o : Thread Lock (Kind × Bytes) _ _) := by
  cases o with
  | ok a => rfl
  | error e => rfl
  | halted => trivial

namespace KeepsTidy

theorem pure (a : α) : KeepsTidy H (Pure.pure a : StoreT Device SyncKey α) := rfl

theorem throw (e : StoreError) : KeepsTidy H (MonadExcept.throw e : StoreT Device SyncKey α) := rfl

theorem bind {p : StoreT Device SyncKey α} {k : α → StoreT Device SyncKey β}
    (h : KeepsTidy H p) (hk : ∀ a, KeepsTidy H (k a)) : KeepsTidy H (p >>= k) := by
  apply Tidy.bind
  refine Tidy.mono h ?_
  rintro (e | a) H' rfl
  · rfl
  · exact hk a

theorem ofRun (j : FlashM α) (watch : Outcome StoreError α → Option (Kind × Bytes)) :
    KeepsTidy H (Thread.ofProg (run j) watch : StoreT Device SyncKey α) :=
  ⟨Or.inl (job_run j watch), fun _ => tidy_ofOutcome _⟩

theorem job (j : FlashM α) : KeepsTidy H (Threaded.job j : StoreT Device SyncKey α) := ofRun j _

theorem reading (kind : Kind) (key : Bytes) (mirrored : β → Bool) (j : FlashM (Option β)) :
    KeepsTidy H (Threaded.reading kind key mirrored j : StoreT Device SyncKey (Option β)) := ofRun j _

theorem mirrors {p : StoreM Device SyncKey α} (hp : Apart p) : KeepsTidy H (Threaded.mirrors p) := by
  refine ⟨Or.inr ⟨fun s flash => ?_, fun _ _ => rfl, fun s flash => ?_⟩, fun _ => tidy_ofOutcome _⟩
  · exact congrArg Prod.snd (hp s flash)
  · exact congrArg (fun r => Thread.ofOutcome r.1) (hp s flash)

theorem withLock {l : Lock} {p : StoreT Device SyncKey α} (hl : ∀ l' ∈ H, l' < l)
    (hp : KeepsTidy (insert l H) p) : KeepsTidy H (Thread.withLock l p) := by
  refine ⟨hl, Tidy.bind (Tidy.mono hp ?_)⟩
  rintro r H' rfl
  have hfree : l ∉ H := fun hmem => lt_irrefl l (hl l hmem)
  exact ⟨Set.mem_insert l H, Set.insert_sdiff_self_of_notMem hfree⟩

/-- `operation` is taken first. -/
theorem withOperation {p : StoreT Device SyncKey α} (hp : KeepsTidy {.operation} p) :
    KeepsTidy ∅ (Thread.withLock .operation p) := by
  refine withLock (fun _ h => absurd h (Set.notMem_empty _)) ?_
  rw [insert_empty_eq]
  exact hp

/-- `inner` is taken last. -/
theorem withInner {p : StoreT Device SyncKey α} (hH : .inner ∉ H) (hp : ∀ H, KeepsTidy H p) :
    KeepsTidy H (Thread.withLock .inner p) := by
  refine withLock (fun l hl => ?_) (hp _)
  cases l with
  | operation => exact operation_lt_inner
  | inner => exact absurd hl hH

end KeepsTidy

/-! ### The accesses to the mirrors -/

theorem apart_withInner (get : StoreInner Device SyncKey → α) : Apart (withInner get) :=
  fun _ _ => rfl

theorem apart_update (change : StoreInner Device SyncKey → StoreInner Device SyncKey) :
    Apart (update change) := fun _ _ => rfl

theorem apart_bind {p : StoreM Device SyncKey α} {k : α → StoreM Device SyncKey β} (hp : Apart p)
    (hk : ∀ a, Apart (k a)) : Apart (p >>= k) := by
  intro s flash
  rw [Prog.bind_run, Prog.bind_run, hp s flash]
  generalize p s = r
  obtain ⟨a | e | _, s'⟩ := r
  · exact hk a s' flash
  · rfl
  · rfl

theorem apart_writeOperation : Apart (writeOperation : StoreM Device SyncKey Unit) := by
  intro s flash
  simp only [writeOperation, Prog.bind_run, Prog.get_run]
  split_ifs <;> rfl

theorem apart_mirrorGate (has : StoreInner Device SyncKey → Bool)
    (len : StoreInner Device SyncKey → ℕ) (max : ℕ) (label : String) :
    Apart (mirrorGate has len max label) := by
  intro s flash
  simp only [mirrorGate, Prog.bind_run, Prog.get_run]
  cases ensureInsertCapacity (has s.inner) (len s.inner) max label <;> rfl

theorem apart_lookup (get : StoreInner Device SyncKey → Option β)
    (touch : StoreInner Device SyncKey → StoreInner Device SyncKey) :
    Apart (Threaded.lookup get touch) := by
  refine apart_bind (apart_withInner get) fun value => ?_
  cases value with
  | none => exact fun _ _ => rfl
  | some value => exact apart_bind (apart_update touch) fun _ _ _ => rfl

theorem apart_sealWrites : Apart (NvsStore.sealWrites : StoreM Device SyncKey Unit) := fun _ _ => rfl

/-! ### The calls -/

namespace KeepsTidy

theorem writing {p : StoreT Device SyncKey α} (hp : KeepsTidy {.operation} p) :
    KeepsTidy ∅ (Threaded.writing p) :=
  withOperation (bind (mirrors apart_writeOperation) fun _ => hp)

theorem change (j : FlashM α) (change : StoreInner Device SyncKey → StoreInner Device SyncKey) :
    KeepsTidy H (do
      let _ ← Threaded.job j
      Threaded.mirrors (update change) : StoreT Device SyncKey Unit) :=
  bind (job j) fun _ => mirrors (apart_update change)

theorem gatedWrite {gate : StoreM Device SyncKey Unit} (hgate : Apart gate) (j : FlashM α)
    (change : StoreInner Device SyncKey → StoreInner Device SyncKey) :
    KeepsTidy ∅ (Threaded.gatedWrite gate j change) :=
  writing (withInner (by decide) fun _ => bind (mirrors hgate) fun _ => .change j change)

theorem plainWrite (j : FlashM α)
    (change : StoreInner Device SyncKey → StoreInner Device SyncKey) :
    KeepsTidy ∅ (Threaded.plainWrite j change : StoreT Device SyncKey Unit) :=
  writing (withInner (by decide) fun _ => .change j change)

theorem batchEntry {gate : StoreM Device SyncKey Unit} (hgate : Apart gate) (j : FlashM α)
    (change : StoreInner Device SyncKey → StoreInner Device SyncKey) :
    KeepsTidy {.operation} (Threaded.batchEntry gate j change) := by
  refine bind (withInner (by decide) fun _ => mirrors hgate) fun _ => ?_
  exact bind (job j) fun _ => withInner (by decide) fun _ => mirrors (apart_update change)

theorem entriesInTurn {ι : Type} {entry : ι → StoreT Device SyncKey Unit}
    (hentry : ∀ e, KeepsTidy H (entry e)) (entries : List ι) :
    KeepsTidy H (Threaded.entriesInTurn entry entries) := by
  induction entries with
  | nil => exact pure ()
  | cons e entries ih => exact bind (hentry e) fun _ => ih

/-- A look at a mirror, and what follows a miss. -/
theorem lookup {get : StoreInner Device SyncKey → Option β}
    {touch : StoreInner Device SyncKey → StoreInner Device SyncKey}
    {k : Option β → StoreT Device SyncKey (Option β)} (hsome : ∀ v, k (some v) = Pure.pure (some v))
    (hnone : KeepsTidy ∅ (k none)) :
    KeepsTidy ∅ (Thread.withLock .inner (Threaded.mirrors (Threaded.lookup get touch)) >>= k :
      StoreT Device SyncKey (Option β)) := by
  refine bind (withInner (by decide) fun _ => mirrors (apart_lookup get touch)) fun value => ?_
  cases value with
  | none => exact hnone
  | some value =>
    rw [hsome]
    exact pure _

theorem mirrored (get : StoreInner Device SyncKey → α) : KeepsTidy ∅ (Threaded.mirrored get) :=
  withInner (by decide) fun _ => mirrors (apart_withInner get)

/-- What a lookup mirrors after it has read the flash. -/
theorem mirroring (change : StoreInner Device SyncKey → StoreInner Device SyncKey) (value : β) :
    KeepsTidy ∅ (do
      Thread.withLock .inner (Threaded.mirrors (update change))
      Pure.pure (some value) : StoreT Device SyncKey (Option β)) :=
  bind (withInner (by decide) fun _ => mirrors (apart_update change)) fun _ => pure _

theorem loadIdentity (address : String) :
    KeepsTidy ∅ (Threaded.loadIdentity P address : StoreT Device SyncKey _) := by
  refine lookup (fun _ => rfl) (bind (reading ..) fun bytes => ?_)
  cases bytes with
  | none => exact pure none
  | some bytes =>
    simp only
    cases toIdentityKey bytes with
    | none => exact pure none
    | some key => exact mirroring _ key

theorem getSession (address : String) :
    KeepsTidy ∅ (Threaded.getSession P address : StoreT Device SyncKey _) := by
  refine lookup (fun _ => rfl) (bind (reading ..) fun session => ?_)
  cases session with
  | none => exact pure none
  | some session => exact mirroring _ session

theorem getSyncKey (keyId : Bytes) :
    KeepsTidy ∅ (Threaded.getSyncKey P keyId : StoreT Device SyncKey _) := by
  refine lookup (fun _ => rfl) (bind (reading ..) fun key => ?_)
  cases key with
  | none => exact pure none
  | some key => exact mirroring _ key

theorem putSession (address : String) (session : Bytes) :
    KeepsTidy ∅ (Threaded.putSession P address session : StoreT Device SyncKey _) := by
  unfold Threaded.putSession
  split_ifs with hlen
  · exact throw _
  · refine writing (withInner (by decide) fun H => bind (mirrors (apart_mirrorGate _ _ _ _)) fun _ => ?_)
    refine bind (job _) fun name => ?_
    cases encodeRecord (asBytes address) session with
    | error e => exact throw e
    | ok record => exact .change _ _

theorem setSyncKey (keyId : Bytes) (key : SyncKey) :
    KeepsTidy ∅ (Threaded.setSyncKey P keyId key : StoreT Device SyncKey _) := by
  refine writing (withInner (by decide) fun H => bind (mirrors (apart_mirrorGate _ _ _ _)) fun _ => ?_)
  cases P.syncKey.toVec key with
  | error e => exact throw _
  | ok payload => exact .change _ _

theorem hasSignalStateForUser (user : String) :
    KeepsTidy ∅ (Threaded.hasSignalStateForUser P user : StoreT Device SyncKey _) := by
  refine bind (withInner (by decide) fun _ => mirrors (apart_withInner _)) fun found => ?_
  split_ifs
  · exact pure true
  · exact pure false
  · exact bind (job _) fun _ => pure _

theorem putIdentitiesBatch (entries : List (String × IdentityKey)) :
    KeepsTidy ∅ (Threaded.putIdentitiesBatch P entries : StoreT Device SyncKey _) := by
  unfold Threaded.putIdentitiesBatch
  split_ifs
  · exact pure ()
  · exact writing (entriesInTurn (fun _ => batchEntry (apart_mirrorGate _ _ _ _) _ _) entries)

theorem putSessionsBatch (entries : List (String × Bytes)) :
    KeepsTidy ∅ (Threaded.putSessionsBatch P entries : StoreT Device SyncKey _) := by
  unfold Threaded.putSessionsBatch
  split_ifs
  · exact pure ()
  · exact writing (entriesInTurn (fun _ => batchEntry (apart_mirrorGate _ _ _ _) _ _) entries)

theorem listSessions : KeepsTidy ∅ (Threaded.listSessions P : StoreT Device SyncKey _) := by
  unfold Threaded.listSessions
  split_ifs
  · exact mirrored _
  · exact job _

theorem clearSessions : KeepsTidy ∅ (Threaded.clearSessions P : StoreT Device SyncKey _) := by
  refine withOperation (withInner (by decide) fun _ => bind (job _) fun _ => ?_)
  exact bind (mirrors (apart_update _)) fun _ => pure _

theorem reset : KeepsTidy ∅ (Threaded.reset P : StoreT Device SyncKey _) :=
  withOperation (withInner (by decide) fun _ => .change _ _)

end KeepsTidy

/-- **The namespaces belong to the worker**: every call touches them in jobs only, and takes
`operation` before `inner`. -/
theorem keepsTidy_task (call : Call Device SyncKey α) (hcall : call.isReboot = false) :
    KeepsTidy ∅ (task P call) := by
  cases call with
  | putIdentity address key => exact .gatedWrite (apart_mirrorGate _ _ _ _) _ _
  | putIdentitiesBatch entries => exact .putIdentitiesBatch entries
  | loadIdentity address => exact .loadIdentity address
  | deleteIdentity address => exact .plainWrite _ _
  | putSession address session => exact .putSession address session
  | putSessionsBatch entries => exact .putSessionsBatch entries
  | getSession address => exact .getSession address
  | deleteSession address => exact .plainWrite _ _
  | hasSignalStateForUser user => exact .hasSignalStateForUser user
  | storePrekey id record => exact .gatedWrite (apart_mirrorGate _ _ _ _) _ _
  | loadPrekey id => exact .mirrored _
  | removePrekey id => exact .plainWrite _ _
  | storeSignedPrekey id record => exact .gatedWrite (apart_mirrorGate _ _ _ _) _ _
  | loadSignedPrekey id => exact .mirrored _
  | removeSignedPrekey id => exact .plainWrite _ _
  | putSenderKey address record => exact .gatedWrite (apart_mirrorGate _ _ _ _) _ _
  | getSenderKey address => exact .mirrored _
  | deleteSenderKey address => exact .plainWrite _ _
  | setSyncKey keyId key => exact .setSyncKey keyId key
  | getSyncKey keyId => exact .getSyncKey keyId
  | getLatestSyncKeyId => exact .mirrored _
  | save device => exact .plainWrite _ _
  | listSessions => exact .listSessions
  | clearSessions => exact .clearSessions
  | reset => exact .reset
  | sealWrites => exact .withOperation (.mirrors apart_sealWrites)
  | reboot => cases hcall

theorem raceCalls_tidy {ι : Type} {i : ι} (r : Except StoreError Unit)
    (p : StoreThread Device SyncKey) (h : raceCalls P i r p) :
    Tidy flashPart (fun _ H => H = ∅) ∅ p := by
  obtain ⟨α, call, hcall, rfl⟩ := h
  exact KeepsTidy.bind (keepsTidy_task call hcall) fun _ => .pure ()

end

/-! ### Runs over the worker -/

/-- The calls of a store, the queue of one job and the worker. -/
abbrev FlashWorker (ι Device SyncKey : Type) :=
  Routed ι Lock (Kind × Bytes) (NvsStore Device SyncKey) (Except StoreError Unit) FlashNamespaces

namespace FlashWorker

variable {ι : Type} {s : NvsStore Device SyncKey} {c c' : FlashWorker ι Device SyncKey}

/-- The worker has started, on a running store. -/
def start (ι : Type) (s : NvsStore Device SyncKey) : FlashWorker ι Device SyncKey :=
  Routed.start (raceStart ι s)

variable [DecidableEq ι]

variable (P) in
/-- Any calls on any threads, over a queue of one job. -/
def Reaches (c c' : FlashWorker ι Device SyncKey) : Prop :=
  Routed.Reaches flashPart 1 (raceCalls P) c c'

/-- A job that is under way does what it likes to the flash, and then something moves on. -/
def Moves (c c' : FlashWorker ι Device SyncKey) : Prop :=
  ∃ c₁, Relation.ReflTransGen (Routed.Work flashPart) c c₁ ∧ Routed.Advance flashPart 1 c₁ c'

theorem ok_of_reaches (h : Reaches P (start ι s) c) : Routed.Ok flashPart 1 c ∧
    Relation.ReflTransGen (AnyStep (raceCalls P) fun _ _ => True) (raceStart ι s)
      (c.view flashPart) :=
  (Routed.ok_start fun _ => ⟨_, rfl⟩).reaches (fun _ r p hp => raceCalls_tidy r p hp) h

end FlashWorker

open FlashWorker

variable {ι : Type} [DecidableEq ι] {s : NvsStore Device SyncKey} {c : FlashWorker ι Device SyncKey}

/-- **Each job is one action**: any run of the calls over the worker is a run in which every job
happens at once.  The two agree on the mirrors, the seal and the locks, on every thread that does
not wait for an answer, and on the flash unless a job is running. -/
theorem flash_jobs_atomic (h : Reaches P (start ι s) c) :
    ∃ c', Relation.ReflTransGen (AnyStep (raceCalls P) fun _ _ => True) (raceStart ι s) c' ∧
      c'.state.inner = c.config.state.inner ∧
      c'.state.acceptingWrites = c.config.state.acceptingWrites ∧ c'.owner = c.config.owner ∧
      (∀ i ∉ c.busy, c'.threads i = c.config.threads i) ∧
      ((∀ i found, c.stage ≠ .running i found) → c'.state.flash = c.config.state.flash) ∧
      c.queue.length ≤ 1 ∧ c.busy.Nodup := by
  obtain ⟨hok, hrun⟩ := ok_of_reaches h
  refine ⟨c.view flashPart, hrun, ?_⟩
  have hserved := fun i hi => Routed.served_subset_busy (c := c) (i := i) hi
  unfold Routed.view
  cases hstage : c.stage with
  | waiting => exact ⟨rfl, rfl, rfl, fun _ _ => rfl, fun _ => rfl, hok.room, hok.nodup⟩
  | running i found =>
    refine ⟨rfl, rfl, rfl, fun _ _ => rfl, fun hidle => ?_, hok.room, hok.nodup⟩
    exact absurd rfl (hidle i found)
  | answering i watch next =>
    refine ⟨rfl, rfl, rfl, fun j hj => ?_, fun _ => rfl, hok.room, hok.nodup⟩
    apply Function.update_of_ne
    rintro rfl
    exact hj (hserved j (by rw [hstage]; exact List.mem_singleton_self j))

/-- One of two threads lists the sessions on a board without PSRAM. -/
def listCall : FlashWorker Bool Bytes Bytes :=
  Routed.start ((raceStart Bool (.fresh aliceBoard)).call true (callThread aliceBoard .listSessions))

/-- Its job is running. -/
def listing : FlashWorker Bool Bytes Bytes :=
  { listCall with stage := .running true (NvsStore.fresh aliceBoard).flash }

theorem reaches_listCall : Reaches aliceBoard (start Bool (.fresh aliceBoard)) listCall :=
  .single (.call (i := true) rfl ⟨_, .listSessions, rfl, rfl⟩)

theorem reaches_listing : Reaches aliceBoard (start Bool (.fresh aliceBoard)) listing := by
  have hsend : Routed.Advance flashPart 1 listCall { listCall with sending := [true] } :=
    .send (i := true) List.not_mem_nil rfl ((job_run _ fun _ => none).bind _)
  have henqueue : Routed.Advance flashPart 1 { listCall with sending := [true] }
      { listCall with queue := [true] } := by
    have hi : ({ listCall with sending := [true] } : FlashWorker ..).sending = [] ++ true :: [] := rfl
    exact .enqueue hi Nat.one_pos
  have htake : Routed.Advance flashPart 1 { listCall with queue := [true] } listing :=
    .take rfl rfl
  exact ((reaches_listCall.tail (.advance hsend)).tail (.advance henqueue)).tail (.advance htake)

theorem listing_atomic :
    ∃ c', Relation.ReflTransGen (AnyStep (raceCalls aliceBoard) fun _ _ => True)
      (raceStart Bool (.fresh aliceBoard)) c' ∧ c'.state.inner = listing.config.state.inner ∧
      c'.threads false = .ret (.ok ()) := by
  obtain ⟨c', hrun, hinner, -, -, hthreads, -⟩ := flash_jobs_atomic reaches_listing
  exact ⟨c', hrun, hinner, hthreads false (by decide)⟩

/-- **No call waits for ever**: with finitely many threads that start no further call the run
cannot go on for ever, whatever the jobs do to the flash; and it cannot get stuck before every call
has returned, unless the power is lost. -/
theorem calls_return [Finite ι] :
    (¬∃ run : ℕ → FlashWorker ι Device SyncKey, Reaches P (start ι s) (run 0) ∧
      ∀ n, Moves (run n) (run (n + 1))) ∧
    ∀ c : FlashWorker ι Device SyncKey, Reaches P (start ι s) c →
      (∀ i, c.config.threads i ≠ .stop) → (∃ i, ∀ r, c.config.threads i ≠ .ret r) →
      ∃ c', Moves c c' := by
  constructor
  · rintro ⟨run, hstart, hmoves⟩
    have hok : ∀ n, Routed.Ok flashPart 1 (run n) := by
      intro n
      induction n with
      | zero => exact (ok_of_reaches hstart).1
      | succ n ih =>
        obtain ⟨c₁, hwork, hadvance⟩ := hmoves n
        exact (ih.works hwork).advance_ok hadvance
    have hwf : WellFounded fun c' c : FlashWorker ι Device SyncKey =>
        Routed.Ok flashPart 1 c ∧ Moves c c' := Routed.wellFounded
    exact (wellFounded_iff_isEmpty_descending_chain.mp hwf).elim ⟨run, fun n => ⟨hok n, hmoves n⟩⟩
  · rintro c hreach hstop ⟨i, hret⟩
    obtain ⟨c', hadvance⟩ := (ok_of_reaches hreach).1.advance Nat.one_pos hstop hret
    exact ⟨c', c, .refl, hadvance⟩

theorem listing_moves : ∃ c', Moves listing c' := by
  refine (calls_return (s := .fresh aliceBoard)).2 listing reaches_listing ?_ ⟨true, ?_⟩
  · intro i h
    cases i <;> cases h
  · intro r h
    cases h

end WhatsappEsp32
