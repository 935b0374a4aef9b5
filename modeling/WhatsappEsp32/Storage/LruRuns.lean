import WhatsappEsp32.Storage.BootLog

/-!
# The use orders over whole runs

Every call of the store either leaves the mirrors alone or succeeds (`Commits`), so the keys it
uses can be read off its answer (`Call.used`), a batch apart, which has used the entries before the
one that failed.  `Used` is the store after `open` and any calls, reboots and failures included,
with the log of all these uses.

* `exec_logOk`: what a call does to the mirrors agrees with what it logs;
* `Used.lruOk`: and so does what a run does;
* `lru_bookkeeping`: the main result.
-/

namespace WhatsappEsp32

open CrashLogic FlashNamespaces NvsStore

variable {Device SyncKey α β ι : Type} {P : Platform Device SyncKey}

/-! ### The uses of a call -/

/-- A lookup has used its key if it found something. -/
def usedIf {V : Type} (used : Uses) (found : Option V) : Uses := if found.isSome then used else {}

/-- The keys that a call has used when it returns `answer`: a write its key, a lookup the key it
has found. -/
def Call.usedBy : {α : Type} → Call Device SyncKey α → α → Uses
  | _, .putIdentity address _, _ => { identities := [address] }
  | _, .loadIdentity address, found => usedIf { identities := [address] } found
  | _, .putSession address _, _ => { sessions := [address] }
  | _, .getSession address, found => usedIf { sessions := [address] } found
  | _, .setSyncKey keyId _, _ => { syncKeys := [keyId] }
  | _, .getSyncKey keyId, found => usedIf { syncKeys := [keyId] } found
  | _, _, _ => {}

/-- The entries of a loop up to the first one that fails. -/
def written {σ ε : Type} (f : ι → Prog σ ε Unit) : List ι → σ → List ι
  | [], _ => []
  | entry :: entries, s =>
    match f entry s with
    | (.ok _, s') => entry :: written f entries s'
    | _ => []

variable (P) in
/-- The keys that a call uses, in order. -/
def Call.used : {α : Type} → Call Device SyncKey α → NvsStore Device SyncKey → Uses
  | _, .putIdentitiesBatch entries, s =>
    if s.acceptingWrites then
      { identities := (written (fun e => putIdentityBody P e.1 e.2) entries s).map Prod.fst }
    else
      {}
  | _, .putSessionsBatch entries, s =>
    if s.acceptingWrites then
      { sessions := (written (fun e => putSessionBody P e.1 e.2) entries s).map Prod.fst }
    else
      {}
  | _, .reboot, s => openUses P s.flash.namespaces s.flash.fates
  | _, call, s =>
    match (exec P call s).1 with
    | .ok answer => call.usedBy answer
    | _ => {}

/-! ### Calls that commit -/

/-- `p` changes the mirrors only if it succeeds, and then as `R` says. -/
def Commits (R : StoreInner Device SyncKey → α → StoreInner Device SyncKey → Prop)
    (p : StoreM Device SyncKey α) : Prop :=
  ∀ t, Triple (fun s => s.inner = t) p (fun a s => R t a s.inner) (fun _ s => s.inner = t)
    (fun s => s.inner = t)

namespace Commits

variable {R : StoreInner Device SyncKey → α → StoreInner Device SyncKey → Prop}
  {p : StoreM Device SyncKey α}

theorem update {R : StoreInner Device SyncKey → Unit → StoreInner Device SyncKey → Prop}
    {f : StoreInner Device SyncKey → StoreInner Device SyncKey} (h : ∀ t, R t () (f t)) :
    Commits R (NvsStore.update f) := by
  refine fun t => Triple.modify _ ?_
  rintro s rfl
  exact h s.inner

/-- The part before the change leaves the mirrors alone. -/
theorem after {q : StoreM Device SyncKey β} {f : β → StoreM Device SyncKey α}
    (hq : ∀ t, Keeps (fun s : NvsStore Device SyncKey => s.inner = t) q)
    (hf : ∀ b, Commits R (f b)) : Commits R (q >>= f) :=
  fun t => Triple.bind (hq t) fun b => hf b t

theorem afterRun {job : FlashM β} {f : β → StoreM Device SyncKey α} (hf : ∀ b, Commits R (f b)) :
    Commits R (NvsStore.run job >>= f) :=
  .after (fun t => keeps_run (I := (· = t)) job) hf

theorem afterWriteOperation {f : Unit → StoreM Device SyncKey α} (hf : ∀ b, Commits R (f b)) :
    Commits R (writeOperation >>= f) :=
  .after (fun t => keeps_writeOperation (I := (· = t))) hf

theorem afterGate {has : StoreInner Device SyncKey → Bool} {len : StoreInner Device SyncKey → ℕ}
    {max : ℕ} {label : String} {f : Unit → StoreM Device SyncKey α} (hf : ∀ b, Commits R (f b)) :
    Commits R (mirrorGate has len max label >>= f) :=
  .after (fun t => keeps_mirrorGate (I := (· = t)) has len max label) hf

/-- A call that returns what it was going to return after its change. -/
theorem returning {R' : StoreInner Device SyncKey → β → StoreInner Device SyncKey → Prop}
    {q : StoreM Device SyncKey β} {a : α} (hq : Commits R' q)
    (h : ∀ t b t', R' t b t' → R t a t') : Commits R (q >>= fun _ => pure a) :=
  fun t => Triple.bind (hq t) fun b => Triple.pure a fun s hs => h t b s.inner hs

theorem pure {a : α} (h : ∀ t, R t a t) : Commits R (Pure.pure a : StoreM Device SyncKey α) := by
  refine fun t => Triple.pure a ?_
  rintro s rfl
  exact h s.inner

theorem throw (e : StoreError) : Commits R (Prog.throw e : StoreM Device SyncKey α) :=
  fun _ => Triple.throw e fun _ => id

/-- A lookup in a mirror: the rest of the call knows what the mirror has. -/
theorem lookup {f : StoreInner Device SyncKey → β} {next : β → StoreM Device SyncKey α}
    (h : ∀ b, Commits (fun t a t' => f t = b → R t a t') (next b)) :
    Commits R (withInner f >>= next) := by
  intro t
  refine Triple.bindRead fun s hs => ⟨f s.inner, withInner_of rfl, ?_⟩
  subst hs
  refine (h (f s.inner) s.inner).weaken ?_ (fun a s' hR => hR rfl) (fun _ _ => id) fun _ => id
  rintro _ rfl
  rfl

/-- However the call ends. -/
theorem run (h : Commits R p) (s : NvsStore Device SyncKey) :
    match p s with
    | (.ok a, s') => R s.inner a s'.inner
    | (_, s') => s'.inner = s.inner := by
  have hs := h s.inner s rfl
  generalize p s = r at hs
  obtain ⟨a | e | _, s'⟩ := r <;> exact hs

end Commits

/-! ### What the calls log -/

/-- The bookkeeping after a call that used `used`, and the identity it used last is mirrored. -/
structure LogOk (uses used : Uses) (s : StoreInner Device SyncKey) : Prop where
  lru : LruOk s (uses ++ used)
  last_mem : ∀ address, used.identities.getLast? = some address → address ∈ s.identities.map.keys

/-- `p` commits to mirrors that agree with the uses of its answer. -/
def Logs (used : α → Uses) (p : StoreM Device SyncKey α) : Prop :=
  Commits (fun t a t' => ∀ uses, LruOk t uses → LogOk uses (used a) t') p

section

variable {s : StoreInner Device SyncKey} {uses : Uses}

theorem LruOk.logOk (h : LruOk s uses) : LogOk uses {} s := by
  refine ⟨?_, nofun⟩
  rw [Uses.append_empty]
  exact h

theorem LruOk.logIdentity (h : LruOk s uses) (address : String) (key : IdentityKey) :
    LogOk uses { identities := [address] } (s.mirrorIdentity P address key) := by
  refine ⟨h.mirrorIdentity address key, fun last hlast => ?_⟩
  obtain rfl : address = last := by simpa using hlast
  exact h.identity_mem address key

theorem LruOk.logSession (h : LruOk s uses) (address : String) (session : Bytes) :
    LogOk uses { sessions := [address] } (s.mirrorSession P address session) :=
  ⟨h.mirrorSession address session, nofun⟩

theorem LruOk.logSyncKey (h : LruOk s uses) (keyId : Bytes) (key : SyncKey) :
    LogOk uses { syncKeys := [keyId] } (s.mirrorSyncKey P keyId key) :=
  ⟨h.mirrorSyncKey keyId key, nofun⟩

end

/-- A call that only reads, or fails. -/
theorem logs_of_keeps {p : StoreM Device SyncKey α}
    (h : ∀ t, Keeps (fun s : NvsStore Device SyncKey => s.inner = t) p) :
    Logs (fun _ => {}) p := by
  refine fun t => (h t).weaken (fun _ => id) ?_ (fun _ _ => id) fun _ => id
  rintro a s rfl uses hs
  exact hs.logOk

/-- The part of a write after the sealing check. -/
theorem logs_gated {has : StoreInner Device SyncKey → Bool} {len : StoreInner Device SyncKey → ℕ}
    {max : ℕ} {label : String} {job : FlashM α}
    {f : StoreInner Device SyncKey → StoreInner Device SyncKey} {used : Uses}
    (hf : ∀ s uses, LruOk s uses → LogOk uses used (f s)) :
    Logs (fun _ => used) (do
      mirrorGate has len max label
      let _ ← run job
      update f : StoreM Device SyncKey Unit) :=
  .afterGate fun _ => .afterRun fun _ => .update hf

/-- A write without a gate, which uses nothing. -/
theorem logs_ungated {job : FlashM α}
    {f : StoreInner Device SyncKey → StoreInner Device SyncKey}
    (hf : ∀ s uses, LruOk s uses → LruOk (f s) uses) :
    Logs (fun _ => {}) (do
      writeOperation
      let _ ← run job
      update f : StoreM Device SyncKey Unit) :=
  .afterWriteOperation fun _ => .afterRun fun _ => .update fun s uses hs => (hf s uses hs).logOk

/-- A cached lookup: a hit counts as use. -/
theorem logs_cached {V : Type} {find : StoreInner Device SyncKey → Option V}
    {next : Option V → StoreM Device SyncKey (Option V)} {used : Uses}
    (hit : StoreInner Device SyncKey → StoreInner Device SyncKey)
    (hnext : ∀ v, next (some v) = do
      update hit
      pure (some v))
    (hhit : ∀ s v uses, find s = some v → LruOk s uses → LogOk uses used (hit s))
    (hmiss : Logs (usedIf used) (next none)) : Logs (usedIf used) (withInner find >>= next) := by
  refine .lookup fun mirrored => ?_
  cases mirrored with
  | some v =>
    rw [hnext]
    refine Commits.returning (Commits.update (R := fun t _ t' => t' = hit t) fun _ => rfl) ?_
    rintro t - _ rfl hfind uses hs
    exact hhit t v uses hfind hs
  | none =>
    refine fun t => (hmiss t).weaken (fun _ => id) (fun a s hR _ => hR) (fun _ _ => id) ?_
    exact fun _ => id

/-- A miss that found a value. -/
theorem logs_found {V : Type} {f : StoreInner Device SyncKey → StoreInner Device SyncKey} {v : V}
    {used : Uses} (hf : ∀ s uses, LruOk s uses → LogOk uses used (f s)) :
    Logs (usedIf used) (do
      update f
      pure (some v) : StoreM Device SyncKey (Option V)) := by
  refine Commits.returning (Commits.update (R := fun t _ t' => t' = f t) fun _ => rfl) ?_
  rintro t - _ rfl
  exact hf t

theorem logs_notFound {V : Type} {used : Uses} :
    Logs (usedIf used) (pure none : StoreM Device SyncKey (Option V)) :=
  .pure fun _ _ hs => hs.logOk

theorem loadIdentity_logs (address : String) :
    Logs (usedIf { identities := [address] }) (loadIdentity P address) := by
  refine logs_cached (fun s => { s with identities := s.identities.touch address }) (fun _ => rfl)
    (fun s key uses hfind hs => ?_) ?_
  · have hmem := AList.mem_keys_iff_lookup.mpr ⟨key, hfind⟩
    refine ⟨hs.with_identities (hs.identities.touch hmem), fun last hlast => ?_⟩
    obtain rfl : address = last := by simpa using hlast
    exact hmem
  · refine .afterRun fun loaded => ?_
    cases loaded with
    | none => exact logs_notFound
    | some bytes =>
      cases hkey : toIdentityKey bytes with
      | none =>
        simp only [hkey]
        exact logs_notFound
      | some key =>
        simp only [hkey]
        exact logs_found fun s uses hs => hs.logIdentity address key

theorem getSession_logs (address : String) :
    Logs (usedIf { sessions := [address] }) (getSession P address) := by
  refine logs_cached (fun s => { s with sessions := s.sessions.touch address }) (fun _ => rfl)
    (fun s session uses hfind hs => ?_) ?_
  · have hmem := AList.mem_keys_iff_lookup.mpr ⟨session, hfind⟩
    exact ⟨hs.with_sessions (hs.sessions.touch hmem), nofun⟩
  · refine .afterRun fun loaded => ?_
    cases loaded with
    | none => exact logs_notFound
    | some session => exact logs_found fun s uses hs => hs.logSession address session

theorem getSyncKey_logs (keyId : Bytes) :
    Logs (usedIf { syncKeys := [keyId] }) (getSyncKey P keyId) := by
  refine logs_cached (fun s => { s with syncKeys := s.syncKeys.touch keyId }) (fun _ => rfl)
    (fun s key uses hfind hs => ?_) ?_
  · have hmem := AList.mem_keys_iff_lookup.mpr ⟨key, hfind⟩
    exact ⟨hs.with_syncKeys (hs.syncKeys.touch hmem) hs.latest_mem, nofun⟩
  · refine .afterRun fun loaded => ?_
    cases loaded with
    | none => exact logs_notFound
    | some key => exact logs_found fun s uses hs => hs.logSyncKey keyId key

theorem putSession_logs (address : String) (session : Bytes) :
    Logs (fun _ => { sessions := [address] }) (putSession P address session) := by
  unfold putSession
  split_ifs
  · exact .throw _
  · refine .afterWriteOperation fun _ => .afterGate fun _ => .afterRun fun name => ?_
    refine .after (fun _ => Keeps.ofExcept _) fun record => .afterRun fun _ => ?_
    exact .update fun s uses hs => hs.logSession address _

theorem setSyncKey_logs (keyId : Bytes) (key : SyncKey) :
    Logs (fun _ => { syncKeys := [keyId] }) (setSyncKey P keyId key) := by
  refine .afterWriteOperation fun _ => .afterGate fun _ => ?_
  cases P.syncKey.toVec key with
  | error e => exact .throw _
  | ok payload =>
    exact .afterRun fun _ => .update fun s uses hs => ⟨hs.setLatest keyId key, nofun⟩

/-- What a call leaves, when what it has used can be read off its answer. -/
theorem Logs.logOk {used : α → Uses} {p : StoreM Device SyncKey α} (h : Logs used p)
    {s : NvsStore Device SyncKey} {uses : Uses} (hs : LruOk s.inner uses) :
    LogOk uses (match (p s).1 with
      | .ok answer => used answer
      | _ => {}) (p s).2.inner := by
  have hrun := h.run s
  generalize p s = r at hrun
  obtain ⟨a | e | _, s'⟩ := r
  · exact hrun uses hs
  · simp only at hrun ⊢
    rw [hrun]
    exact hs.logOk
  · simp only at hrun ⊢
    rw [hrun]
    exact hs.logOk

/-! ### Batches -/

/-- A loop of calls that commit: `R` follows the entries it has written. -/
theorem inTurn_written {f : ι → StoreM Device SyncKey Unit}
    {R : List ι → StoreInner Device SyncKey → Prop}
    (hf : ∀ entry, Commits (fun t _ t' => ∀ done, R done t → R (done ++ [entry]) t') (f entry))
    (entries : List ι) (s : NvsStore Device SyncKey) (done : List ι) (hs : R done s.inner) :
    R (done ++ written f entries s) (inTurn f entries s).2.inner := by
  induction entries generalizing s done with
  | nil => simpa [written, inTurn] using hs
  | cons entry entries ih =>
    have hrun := (hf entry).run s
    rw [written, inTurn, Prog.bind_run]
    generalize f entry s = r at hrun
    obtain ⟨a | e | _, s'⟩ := r
    · have hrest := ih s' (done ++ [entry]) (hrun done hs)
      simpa using hrest
    · simp only at hrun ⊢
      rw [List.append_nil, hrun]
      exact hs
    · simp only at hrun ⊢
      rw [List.append_nil, hrun]
      exact hs

theorem putIdentities_logOk (entries : List (String × IdentityKey)) {s : NvsStore Device SyncKey}
    {uses : Uses} (hs : LruOk s.inner uses) :
    LogOk uses
      { identities := (written (fun e => putIdentityBody P e.1 e.2) entries s).map Prod.fst }
      (putIdentities P entries s).2.inner := by
  rw [putIdentities_eq]
  refine inTurn_written (R := fun done t => LogOk uses { identities := done.map Prod.fst } t)
    (fun entry => ?_) entries s [] hs.logOk
  refine .afterGate fun _ => .afterRun fun _ => .update fun t done ht => ?_
  have hnext := ht.lru.logIdentity (P := P) entry.1 entry.2
  have hlast : ∀ last, ((done ++ [entry]).map Prod.fst).getLast? = some last →
      ([entry.1] : List String).getLast? = some last := by simp
  refine ⟨?_, fun last h => hnext.last_mem last (hlast last h)⟩
  simpa [Uses.append_eq] using hnext.lru

theorem putSessions_logOk (entries : List (String × Bytes)) {s : NvsStore Device SyncKey}
    {uses : Uses} (hs : LruOk s.inner uses) :
    LogOk uses { sessions := (written (fun e => putSessionBody P e.1 e.2) entries s).map Prod.fst }
      (putSessions P entries s).2.inner := by
  rw [putSessions_eq]
  refine inTurn_written (R := fun done t => LogOk uses { sessions := done.map Prod.fst } t)
    (fun entry => ?_) entries s [] hs.logOk
  refine .afterGate fun _ => .afterRun fun _ => .update fun t done ht => ?_
  have hnext := ht.lru.mirrorSession (P := P) entry.1 entry.2
  refine ⟨?_, nofun⟩
  simpa [Uses.append_eq] using hnext

/-- A loop behind the sealing check. -/
theorem batch_logOk {loop : StoreM Device SyncKey Unit} {used : Uses} {s : NvsStore Device SyncKey}
    {uses : Uses} (hs : LruOk s.inner uses) (hloop : LogOk uses used (loop s).2.inner) :
    LogOk uses (if s.acceptingWrites then used else {})
      ((writeOperation >>= fun _ => loop) s).2.inner := by
  cases hopen : s.acceptingWrites with
  | true =>
    rw [Prog.bind_of_ok (writeOperation_of_accepting hopen)]
    exact hloop
  | false =>
    rw [Prog.bind_of_error (writeOperation_of_sealed hopen)]
    exact hs.logOk

/-! ### Every call -/

/-- A reboot starts from the uses of its replay. -/
theorem reboot_logOk (s : NvsStore Device SyncKey) (uses : Uses) :
    LogOk uses (openUses P s.flash.namespaces s.flash.fates) (reboot P s).2.inner := by
  have hnone : LogOk uses {} ({} : StoreInner Device SyncKey) := (lruOk_empty uses).logOk
  unfold reboot
  cases hopen : openPartition P s.flash.namespaces s.flash.fates with
  | mk o flash =>
    have herased := hopen
    unfold openPartition at herased
    rw [openLogged_erases, Prog.bind_run] at herased
    unfold openUses
    generalize hlogged : openLogged P ⟨s.flash.namespaces, [], s.flash.fates⟩ = r at herased
    obtain ⟨a | e | _, f⟩ := r
    · cases herased
      have hbooted := openLogged_booted.of_ok hlogged
      exact ⟨hbooted.lru.append_left uses, hbooted.last_mem⟩
    · cases herased
      exact hnone
    · cases herased
      exact hnone

/-- What a call does to the mirrors agrees with what it logs. -/
theorem exec_logOk (call : Call Device SyncKey α) {s : NvsStore Device SyncKey} {uses : Uses}
    (hs : LruOk s.inner uses) : LogOk uses (call.used P s) (exec P call s).2.inner := by
  cases call with
  | putIdentity address key =>
    exact Logs.logOk (.afterWriteOperation fun _ => logs_gated fun s uses hs =>
      hs.logIdentity address key) hs
  | putIdentitiesBatch entries =>
    show LogOk uses _ (putIdentitiesBatch P entries s).2.inner
    unfold putIdentitiesBatch
    -- an empty batch does not even look at the seal
    split_ifs with hentries
    · subst hentries
      simpa [Call.used, written] using hs.logOk
    · exact batch_logOk hs (putIdentities_logOk entries hs)
  | loadIdentity address => exact (loadIdentity_logs address).logOk hs
  | deleteIdentity address =>
    refine Logs.logOk (logs_ungated fun s uses hs => ?_) hs
    exact ⟨hs.identities.remove address, hs.sessions, hs.syncKeys, hs.latest_mem⟩
  | putSession address session => exact (putSession_logs address session).logOk hs
  | putSessionsBatch entries =>
    show LogOk uses _ (putSessionsBatch P entries s).2.inner
    unfold putSessionsBatch
    split_ifs with hentries
    · subst hentries
      simpa [Call.used, written] using hs.logOk
    · exact batch_logOk hs (putSessions_logOk entries hs)
  | getSession address => exact (getSession_logs address).logOk hs
  | deleteSession address =>
    refine Logs.logOk (logs_ungated fun s uses hs => ?_) hs
    exact ⟨hs.identities, hs.sessions.remove address, hs.syncKeys, hs.latest_mem⟩
  | hasSignalStateForUser user =>
    -- a look at the keys of the mirrors is no use of them
    refine Logs.logOk (.after (fun t => keeps_withInner (I := (· = t)) _) fun mirrored => ?_) hs
    split_ifs
    · exact .pure fun _ _ hs => hs.logOk
    · exact .pure fun _ _ hs => hs.logOk
    · exact .afterRun fun _ => .pure fun _ _ hs => hs.logOk
  | storePrekey id record =>
    exact Logs.logOk (.afterWriteOperation fun _ => logs_gated fun s uses hs =>
      -- the mirrors without a cap have no order
      (hs.with_others s.device (s.prekeys.insert id record) s.signedPrekeys s.senderKeys).logOk) hs
  | loadPrekey id => exact hs.logOk
  | removePrekey id =>
    exact Logs.logOk (logs_ungated fun s uses hs =>
      hs.with_others s.device (s.prekeys.erase id) s.signedPrekeys s.senderKeys) hs
  | storeSignedPrekey id record =>
    exact Logs.logOk (.afterWriteOperation fun _ => logs_gated fun s uses hs =>
      (hs.with_others s.device s.prekeys (s.signedPrekeys.insert id record) s.senderKeys).logOk) hs
  | loadSignedPrekey id => exact hs.logOk
  | removeSignedPrekey id =>
    exact Logs.logOk (logs_ungated fun s uses hs =>
      hs.with_others s.device s.prekeys (s.signedPrekeys.erase id) s.senderKeys) hs
  | putSenderKey address record =>
    exact Logs.logOk (.afterWriteOperation fun _ => logs_gated fun s uses hs =>
      (hs.with_others s.device s.prekeys s.signedPrekeys (s.senderKeys.insert address record)).logOk)
      hs
  | getSenderKey address => exact hs.logOk
  | deleteSenderKey address =>
    exact Logs.logOk (logs_ungated fun s uses hs =>
      hs.with_others s.device s.prekeys s.signedPrekeys (s.senderKeys.erase address)) hs
  | setSyncKey keyId key => exact (setSyncKey_logs keyId key).logOk hs
  | getSyncKey keyId => exact (getSyncKey_logs keyId).logOk hs
  | getLatestSyncKeyId => exact hs.logOk
  | save device =>
    exact Logs.logOk (logs_ungated fun s uses hs =>
      hs.with_others (some device) s.prekeys s.signedPrekeys s.senderKeys) hs
  | listSessions =>
    refine Logs.logOk (p := listSessions P) (logs_of_keeps fun t => ?_) hs
    exact .ite (fun _ => keeps_withInner (I := (· = t)) _) fun _ => keeps_run (I := (· = t)) _
  | clearSessions =>
    refine Logs.logOk (.afterRun fun count => ?_) hs
    refine Commits.returning (Commits.update (R := fun t _ t' => t' = { t with sessions := {} })
      fun _ => rfl) ?_
    rintro t - _ rfl uses ht
    exact LruOk.logOk ⟨ht.identities, Mirror.byUse_empty _, ht.syncKeys, ht.latest_mem⟩
  | reset =>
    exact Logs.logOk (.afterRun fun _ => .update fun _ uses _ => (lruOk_empty uses).logOk) hs
  | sealWrites => exact hs.logOk
  | reboot => exact reboot_logOk s uses

/-! ### Runs -/

variable (P) in
/-- The stores that `open` and any calls lead to, whatever the partition holds and whatever fails,
with the log of all uses. -/
inductive Used : NvsStore Device SyncKey → Uses → Prop
  | opened (namespaces : Ns → Namespace) (fates : List Fate) {mirrors : StoreInner Device SyncKey}
      {flash : FlashNamespaces} (hopen : openPartition P namespaces fates = (.ok mirrors, flash)) :
      Used ⟨mirrors, flash, true⟩ (openUses P namespaces fates)
  | call {st : NvsStore Device SyncKey} {uses : Uses} (h : Used st uses) {α : Type}
      (call : Call Device SyncKey α) (fates : List Fate) :
      Used (exec P call (Machine.withFates st fates)).2
        (uses ++ call.used P (Machine.withFates st fates))

theorem Used.lruOk {st : NvsStore Device SyncKey} {uses : Uses} (h : Used P st uses) :
    LruOk st.inner uses := by
  induction h with
  | opened namespaces fates hopen => exact (open_booted hopen).1
  | @call st _ _ _ call fates ih => exact (exec_logOk (s := Machine.withFates st fates) call ih).lru

/-- The last visited key of those with the greatest timestamp. -/
theorem newest_iff {visited : VisitLog} {newest : Option Bytes}
    (h : newest = (Newest.newest (stamped P visited)).map Prod.fst) (id : Bytes) :
    newest = some id ↔ ∃ t, Newest.IsNewest (stamped P visited) (id, t) := by
  rw [h, Option.map_eq_some_iff]
  constructor
  · rintro ⟨⟨_, t⟩, he, rfl⟩
    exact ⟨t, Newest.newest_eq_some_iff.mp he⟩
  · rintro ⟨t, ht⟩
    exact ⟨(id, t), Newest.newest_eq_some_iff.mpr ht, rfl⟩

/-- In every run the use orders list the keys of their mirrors by last use and the latest sync key
is mirrored; the identity that a call used last is mirrored after it; every eviction drops keys
from the least recently used end, and skips only the protected sync key; and however far the boot
replay has come, its newest sync key is mirrored and is the choice of an unbounded mirror. -/
theorem lru_bookkeeping {st : NvsStore Device SyncKey} {uses : Uses} (h : Used P st uses) :
    Bookkept st.inner uses ∧
    (∀ {α : Type} (call : Call Device SyncKey α) (fates : List Fate) (address : String),
      (call.used P (Machine.withFates st fates)).identities.getLast? = some address →
      address ∈ (exec P call (Machine.withFates st fates)).2.inner.identities.map.keys) ∧
    (∀ s : StoreInner Device SyncKey, s.identities.Tracks → s.sessions.Tracks → s.syncKeys.Tracks →
      Mirror.EvictsOldest (if P.hasPsram then 0 else s.identities.map.size - 8) none
        s.identities (s.enforceIdentitiesCap P).identities ∧
      Mirror.EvictsOldest (if P.hasPsram then 0 else s.sessions.map.size) none
        s.sessions (s.enforceSessionsCap P).sessions ∧
      (∀ spared, Mirror.EvictsOldest (if P.hasPsram then 0 else s.syncKeys.map.size - 8) spared
        s.syncKeys (s.enforceSyncKeysCapExcept P spared).syncKeys) ∧
      ((∀ id, s.latestSyncKeyId = some id → id ∈ s.syncKeys.map.keys) →
        Mirror.EvictsOldest
          (if !P.hasPsram ∧ s.syncKeys.map.size > 8 then s.syncKeys.map.size else 0)
          s.latestSyncKeyId s.syncKeys (keepLatest P s).syncKeys)) ∧
    ∀ (f f' : FlashNamespaces) (names : List String) (base inner : StoreInner Device SyncKey)
      (newest : Option Bytes),
      names <+: P.iterOrder (f.namespaces (.records .syncKeys)).keys → base.syncKeys = {} →
      visitNames P (.records .syncKeys) "sync key" maxSignalRecordLen (visitSyncKey P) names
        (base, none) f = (.ok (inner, newest), f') →
      (∀ id, newest = some id → id ∈ inner.syncKeys.map.keys) ∧
      (∃ visited, loadNames P (.records .syncKeys) "sync key" maxSignalRecordLen names f =
          (.ok visited, f') ∧
        ∀ id, newest = some id ↔ ∃ t, Newest.IsNewest (stamped P visited) (id, t)) ∧
      ∃ unbounded, visitNames P.unbounded (.records .syncKeys) "sync key" maxSignalRecordLen
        (visitSyncKey P.unbounded) names (base, none) f = (.ok (unbounded, newest), f') := by
  refine ⟨h.lruOk.bookkept, fun call fates => ?_, ?_, ?_⟩
  · exact (exec_logOk (s := Machine.withFates st fates) call h.lruOk).last_mem
  · intro s hidentities hsessions hsyncKeys
    refine ⟨hidentities.enforceCap_evicts _ 8, hsessions.enforceCap_evicts _ 0, fun spared => ?_,
      fun hlatest => (keepLatest_cases s hsyncKeys hlatest).2⟩
    exact hsyncKeys.enforceCapExcept_evicts _ spared
  · intro f f' names base inner newest hnames hbase hwalk
    have hnodup : names.Nodup := (iterOrder_nodup _).sublist hnames.sublist
    obtain ⟨hmem, ⟨visited, hload, hnewest⟩, hunbounded⟩ := syncWalk_newest hnodup hbase hwalk
    exact ⟨hmem, ⟨visited, hload, newest_iff hnewest⟩, hunbounded⟩

variable (P) in
/-- The store and the log after some calls without failures. -/
def usedAfter (calls : List ((α : Type) × Call Device SyncKey α))
    (run : NvsStore Device SyncKey × Uses) : NvsStore Device SyncKey × Uses :=
  calls.foldl (fun r c => ((exec P c.2 (Machine.withFates r.1 [])).2,
    r.2 ++ c.2.used P (Machine.withFates r.1 []))) run

theorem Used.calls (calls : List ((α : Type) × Call Device SyncKey α))
    {run : NvsStore Device SyncKey × Uses} (h : Used P run.1 run.2) :
    Used P (usedAfter P calls run).1 (usedAfter P calls run).2 := by
  induction calls generalizing run with
  | nil => exact h
  | cons c calls ih => exact ih (h.call c.2 [])

/-- A device is linked, two sync keys arrive, and the older one is read again. -/
def rereadRun : NvsStore Bytes Bytes × Uses :=
  usedAfter syncBoard [⟨_, .save [1]⟩, ⟨_, .setSyncKey [1] [1]⟩, ⟨_, .setSyncKey [2] [2]⟩,
    ⟨_, .getSyncKey [1]⟩] (NvsStore.fresh syncBoard, openUses syncBoard emptyPartition [])

/-- The key that was read again comes last in the order. -/
theorem reread_bookkept :
    Used syncBoard rereadRun.1 rereadRun.2 ∧
    rereadRun.2.syncKeys = [[1], [2], [1]] ∧ rereadRun.1.inner.syncKeys.order = [[2], [1]] ∧
    Bookkept rereadRun.1.inner rereadRun.2 := by
  have hfresh : Used syncBoard (NvsStore.fresh syncBoard) (openUses syncBoard emptyPartition []) :=
    .opened emptyPartition [] open_syncBoard
  have hused : Used syncBoard rereadRun.1 rereadRun.2 := Used.calls _ hfresh
  exact ⟨hused, by decide +kernel, by decide +kernel, (lru_bookkeeping hused).1⟩

end WhatsappEsp32
