import WhatsappEsp32.Lib.Threads
import WhatsappEsp32.Storage.Wear

/-!
# Concurrent callers

The calls of the store as threads.  Writes hold the `operation` mutex from the sealing check to
their return; single writes also hold the inner lock across their flash jobs, the batches take it
for each look at the mirrors.  The lookups that fall back to the flash take the inner lock twice,
with the flash read in between, and never the `operation` mutex.  Each access to the mirrors, each
job on the flash worker and each lock operation is one step.

* `Lock`, `StoreT`; `job`, `mirrors`, `reading`: the three kinds of actions;
* one thread for each call, under the name of the call in `Threaded`; `task`, `callThread`;
* `toProg_task`: a call that runs alone does what the sequential model says.
-/

namespace WhatsappEsp32

open CrashLogic FlashNamespaces NvsStore Threads

/-- The two mutexes of `NvsStore`. -/
inductive Lock
  | operation
  | inner
  deriving DecidableEq

/-- Calls of the store on a thread.  A reader watches the record it has read from the flash until
it has mirrored it. -/
abbrev StoreT (Device SyncKey : Type) :=
  ExceptT StoreError (Thread Lock (Kind × Bytes) (NvsStore Device SyncKey))

variable {Device SyncKey α β : Type} (P : Platform Device SyncKey)

namespace Threaded

/-- A job on the flash worker. -/
def job (j : FlashM α) : StoreT Device SyncKey α := Thread.ofProg (run j) fun _ => none

/-- An access to the mirrors, made under the inner lock. -/
def mirrors (p : StoreM Device SyncKey α) : StoreT Device SyncKey α :=
  Thread.ofProg p fun _ => none

/-- The flash read of a lookup.  A record that will be mirrored is watched. -/
def reading (kind : Kind) (key : Bytes) (mirrored : β → Bool) (j : FlashM (Option β)) :
    StoreT Device SyncKey (Option β) :=
  Thread.ofProg (run j) fun
    | .ok (some value) => if mirrored value then some (kind, key) else none
    | _ => none

/-- `write_operation`: the flag is checked under the mutex, and the guard lives until the call
returns. -/
def writing (p : StoreT Device SyncKey α) : StoreT Device SyncKey α :=
  Thread.withLock .operation do
    mirrors writeOperation
    p

/-- A look at a mirror; a hit counts as use. -/
def lookup (get : StoreInner Device SyncKey → Option β)
    (touch : StoreInner Device SyncKey → StoreInner Device SyncKey) :
    StoreM Device SyncKey (Option β) := do
  match ← withInner get with
  | some value => do
    update touch
    pure (some value)
  | none => pure none

/-- A single write: the gate, the flash job and the mirror update under both locks. -/
def gatedWrite (gate : StoreM Device SyncKey Unit) (j : FlashM α)
    (change : StoreInner Device SyncKey → StoreInner Device SyncKey) :
    StoreT Device SyncKey Unit :=
  writing <| Thread.withLock .inner do
    mirrors gate
    let _ ← job j
    mirrors (update change)

/-- A single write without a gate. -/
def plainWrite (j : FlashM α) (change : StoreInner Device SyncKey → StoreInner Device SyncKey) :
    StoreT Device SyncKey Unit :=
  writing <| Thread.withLock .inner do
    let _ ← job j
    mirrors (update change)

/-- One entry of a batch: the inner lock is taken for the gate and for the mirror update only. -/
def batchEntry (gate : StoreM Device SyncKey Unit) (j : FlashM α)
    (change : StoreInner Device SyncKey → StoreInner Device SyncKey) :
    StoreT Device SyncKey Unit := do
  Thread.withLock .inner (mirrors gate)
  let _ ← job j
  Thread.withLock .inner (mirrors (update change))

/-- The loop of a batch. -/
def entriesInTurn {ι : Type} (entry : ι → StoreT Device SyncKey Unit) :
    List ι → StoreT Device SyncKey Unit
  | [] => pure ()
  | e :: entries => do
    entry e
    entriesInTurn entry entries

/-! ### Identities and sessions -/

/-- The check of the mirror before an identity is written. -/
def identityGate (address : String) : StoreM Device SyncKey Unit :=
  mirrorGate (fun s => (s.identities.map.lookup address).isSome) (fun s => s.identities.map.size)
    maxIdentities "identity"

/-- `put_identity`. -/
def putIdentity (address : String) (key : IdentityKey) : StoreT Device SyncKey Unit :=
  gatedWrite (identityGate address)
    (putRecord P (.records .identities) (asBytes address) key.1 "identity" maxIdentities)
    (StoreInner.mirrorIdentity P address key)

/-- `put_identities_batch`: the whole batch under one operation lock. -/
def putIdentitiesBatch (entries : List (String × IdentityKey)) : StoreT Device SyncKey Unit :=
  if entries = [] then
    pure ()
  else
    writing (entriesInTurn (fun e => batchEntry (identityGate e.1)
      (putRecord P (.records .identities) (asBytes e.1) e.2.1 "identity" maxIdentities)
      (StoreInner.mirrorIdentity P e.1 e.2)) entries)

/-- `load_identity`: neither the read of the flash nor the write to the mirror is under the
operation lock. -/
def loadIdentity (address : String) : StoreT Device SyncKey (Option IdentityKey) := do
  match ← Thread.withLock .inner (mirrors (lookup (fun s => s.identities.map.lookup address)
      fun s => { s with identities := s.identities.touch address })) with
  | some key => pure (some key)
  | none => do
    match ← reading .identities (asBytes address) (fun bytes => (toIdentityKey bytes).isSome)
        (loadRecord P (.records .identities) (asBytes address) 32) with
    | none => pure none
    | some bytes =>
      match toIdentityKey bytes with
      | none => pure none
      | some key => do
        Thread.withLock .inner (mirrors (update (StoreInner.mirrorIdentity P address key)))
        pure (some key)

/-- `delete_identity`. -/
def deleteIdentity (address : String) : StoreT Device SyncKey Unit :=
  plainWrite (deleteRecord P (.records .identities) (asBytes address) "identity")
    fun s => { s with identities := s.identities.remove address }

/-- `get_session`, with the gap of `loadIdentity`. -/
def getSession (address : String) : StoreT Device SyncKey (Option Bytes) := do
  match ← Thread.withLock .inner (mirrors (lookup (fun s => s.sessions.map.lookup address)
      fun s => { s with sessions := s.sessions.touch address })) with
  | some session => pure (some session)
  | none => do
    match ← reading .sessions (asBytes address) (fun _ => true)
        (loadRecord P (.records .sessions) (asBytes address) maxSignalRecordLen) with
    | none => pure none
    | some session => do
      Thread.withLock .inner (mirrors (update (StoreInner.mirrorSession P address session)))
      pure (some session)

/-- The check and the write are two jobs, both under the inner lock. -/
def putSession (address : String) (session : Bytes) : StoreT Device SyncKey Unit :=
  if session.length > maxSignalRecordLen then
    throw (.validation s!"session record is too large: {session.length} bytes")
  else
    writing <| Thread.withLock .inner do
      mirrors (sessionGate address)
      let name ← job (checkRecordSlot P (.records .sessions) (asBytes address) session.length
        "session" maxSessions)
      match encodeRecord (asBytes address) session with
      | .error e => throw e
      | .ok record => do
        job (setBlob (.records .sessions) name record)
        mirrors (update (StoreInner.mirrorSession P address
          (record.drop (recordHeaderLen + (asBytes address).length))))

/-- `put_sessions_batch`. -/
def putSessionsBatch (entries : List (String × Bytes)) : StoreT Device SyncKey Unit :=
  if entries = [] then
    pure ()
  else
    writing (entriesInTurn (fun e => batchEntry (sessionGate e.1)
      (putRecord P (.records .sessions) (asBytes e.1) e.2 "session" maxSessions)
      (StoreInner.mirrorSession P e.1 e.2)) entries)

/-- `delete_session`. -/
def deleteSession (address : String) : StoreT Device SyncKey Unit :=
  plainWrite (deleteRecord P (.records .sessions) (asBytes address) "session")
    fun s => { s with sessions := s.sessions.remove address }

/-- `has_signal_state_for_user`: the mirrors first, without PSRAM then the namespaces. -/
def hasSignalStateForUser (user : String) : StoreT Device SyncKey Bool := do
  let mirrored ← Thread.withLock .inner (mirrors (withInner fun s =>
    s.sessions.map.keys.any (addressMatches · user) ||
      s.identities.map.keys.any (addressMatches · user)))
  if mirrored then
    pure true
  else if P.hasPsram then
    pure false
  else
    let addresses ← job do
      let sessions ← namespaceAddresses P (.records .sessions) "session"
      let identities ← namespaceAddresses P (.records .identities) "identity"
      pure (sessions ++ identities)
    pure (addresses.any (addressMatches · user))

/-! ### Prekeys, signed prekeys and sender keys -/

/-- `store_prekey`. -/
def storePrekey (id : UInt32) (record : Bytes) : StoreT Device SyncKey Unit :=
  gatedWrite (mirrorGate (fun s => (s.prekeys.lookup id).isSome) (fun s => s.prekeys.size)
      maxPrekeys "prekey")
    (putRecord P (.records .prekeys) (u32ToLeBytes id) record "prekey" maxPrekeys)
    fun s => { s with prekeys := s.prekeys.insert id record }

/-- `remove_prekey`. -/
def removePrekey (id : UInt32) : StoreT Device SyncKey Unit :=
  plainWrite (deleteRecord P (.records .prekeys) (u32ToLeBytes id) "prekey")
    fun s => { s with prekeys := s.prekeys.erase id }

/-- `store_signed_prekey`. -/
def storeSignedPrekey (id : UInt32) (record : Bytes) : StoreT Device SyncKey Unit :=
  gatedWrite (mirrorGate (fun s => (s.signedPrekeys.lookup id).isSome)
      (fun s => s.signedPrekeys.size) maxSignedPrekeys "signed prekey")
    (putRecord P (.records .signedPrekeys) (u32ToLeBytes id) record "signed prekey"
      maxSignedPrekeys)
    fun s => { s with signedPrekeys := s.signedPrekeys.insert id record }

/-- `remove_signed_prekey`. -/
def removeSignedPrekey (id : UInt32) : StoreT Device SyncKey Unit :=
  plainWrite (deleteRecord P (.records .signedPrekeys) (u32ToLeBytes id) "signed prekey")
    fun s => { s with signedPrekeys := s.signedPrekeys.erase id }

/-- `put_sender_key`. -/
def putSenderKey (address : String) (record : Bytes) : StoreT Device SyncKey Unit :=
  gatedWrite (mirrorGate (fun s => (s.senderKeys.lookup address).isSome)
      (fun s => s.senderKeys.size) maxSenderKeys "sender key")
    (putRecord P (.records .senderKeys) (asBytes address) record "sender key" maxSenderKeys)
    fun s => { s with senderKeys := s.senderKeys.insert address record }

/-- `delete_sender_key`. -/
def deleteSenderKey (address : String) : StoreT Device SyncKey Unit :=
  plainWrite (deleteRecord P (.records .senderKeys) (asBytes address) "sender key")
    fun s => { s with senderKeys := s.senderKeys.erase address }

/-! ### Sync keys, the device and maintenance -/

/-- `get_sync_key`, with the gap of `loadIdentity`. -/
def getSyncKey (keyId : Bytes) : StoreT Device SyncKey (Option SyncKey) := do
  match ← Thread.withLock .inner (mirrors (lookup (fun s => s.syncKeys.map.lookup keyId)
      fun s => { s with syncKeys := s.syncKeys.touch keyId })) with
  | some key => pure (some key)
  | none => do
    match ← reading .syncKeys keyId (fun _ => true) (loadSyncKey P keyId) with
    | none => pure none
    | some key => do
      Thread.withLock .inner (mirrors (update (StoreInner.mirrorSyncKey P keyId key)))
      pure (some key)

/-- The check of the mirror before a sync key is written. -/
def syncKeyGate (keyId : Bytes) : StoreM Device SyncKey Unit :=
  mirrorGate (fun s => (s.syncKeys.map.lookup keyId).isSome) (fun s => s.syncKeys.map.size)
    maxSyncKeys "sync key"

/-- `set_sync_key`: the store lock is kept over the whole write. -/
def setSyncKey (keyId : Bytes) (key : SyncKey) : StoreT Device SyncKey Unit :=
  writing <| Thread.withLock .inner do
    mirrors (syncKeyGate keyId)
    match P.syncKey.toVec key with
    | .error error => throw (.serialization error)
    | .ok payload => do
      job (writeSyncKey P keyId payload)
      mirrors (update fun s => { s with latestSyncKeyId := some keyId }.mirrorSyncKey P keyId key)

/-- `save` of the device. -/
def save (device : Device) : StoreT Device SyncKey Unit :=
  plainWrite (saveDevice P device) fun s => { s with device := some device }

/-- A read of the mirrors alone. -/
def mirrored (get : StoreInner Device SyncKey → α) : StoreT Device SyncKey α :=
  Thread.withLock .inner (mirrors (withInner get))

/-- `list_sessions`. -/
def listSessions : StoreT Device SyncKey (List String) :=
  if P.hasPsram then
    mirrored fun s => s.sessions.map.keys
  else
    job (namespaceAddresses P (.records .sessions) "session")

/-- Takes the `operation` mutex without asking whether writes are accepted. -/
def clearSessions : StoreT Device SyncKey ℕ :=
  Thread.withLock .operation <| Thread.withLock .inner do
    let count ← job do
      let count ← recordCount (.records .sessions)
      Prog.modify clearSlots
      eraseNamespace P (.records .sessions) "session"
      pure count
    mirrors (update fun s => { s with sessions := {} })
    pure count

/-- `reset`: both locks over the whole erase. -/
def reset : StoreT Device SyncKey Unit :=
  Thread.withLock .operation <| Thread.withLock .inner do
    job (resetAll P)
    mirrors (update fun _ => {})

/-- `seal_writes`: under the operation lock, so between two writes. -/
def sealWrites : StoreT Device SyncKey Unit :=
  Thread.withLock .operation (mirrors NvsStore.sealWrites)

end Threaded

/-- The thread of a call.  A reboot ends all threads and is none of them. -/
def task : {α : Type} → Call Device SyncKey α → StoreT Device SyncKey α
  | _, .putIdentity address key => Threaded.putIdentity P address key
  | _, .putIdentitiesBatch entries => Threaded.putIdentitiesBatch P entries
  | _, .loadIdentity address => Threaded.loadIdentity P address
  | _, .deleteIdentity address => Threaded.deleteIdentity P address
  | _, .putSession address session => Threaded.putSession P address session
  | _, .putSessionsBatch entries => Threaded.putSessionsBatch P entries
  | _, .getSession address => Threaded.getSession P address
  | _, .deleteSession address => Threaded.deleteSession P address
  | _, .hasSignalStateForUser user => Threaded.hasSignalStateForUser P user
  | _, .storePrekey id record => Threaded.storePrekey P id record
  | _, .loadPrekey id => Threaded.mirrored fun s => s.prekeys.lookup id
  | _, .removePrekey id => Threaded.removePrekey P id
  | _, .storeSignedPrekey id record => Threaded.storeSignedPrekey P id record
  | _, .loadSignedPrekey id => Threaded.mirrored fun s => s.signedPrekeys.lookup id
  | _, .removeSignedPrekey id => Threaded.removeSignedPrekey P id
  | _, .putSenderKey address record => Threaded.putSenderKey P address record
  | _, .getSenderKey address => Threaded.mirrored fun s => s.senderKeys.lookup address
  | _, .deleteSenderKey address => Threaded.deleteSenderKey P address
  | _, .setSyncKey keyId key => Threaded.setSyncKey P keyId key
  | _, .getSyncKey keyId => Threaded.getSyncKey P keyId
  | _, .getLatestSyncKeyId => Threaded.mirrored fun s => s.latestSyncKeyId
  | _, .save device => Threaded.save P device
  | _, .listSessions => Threaded.listSessions P
  | _, .clearSessions => Threaded.clearSessions P
  | _, .reset => Threaded.reset P
  | _, .sealWrites => Threaded.sealWrites
  | _, .reboot => .stop

/-- Threads whose results only say how they ended. -/
abbrev StoreThread (Device SyncKey : Type) :=
  Thread Lock (Kind × Bytes) (NvsStore Device SyncKey) (Except StoreError Unit)

/-- A call whose answer is not looked at. -/
def callThread (call : Call Device SyncKey α) : StoreThread Device SyncKey := (do
  let _ ← task P call
  pure () : StoreT Device SyncKey Unit)

/-! ### Alone -/

namespace Threaded

open Thread

variable {P}

@[simp] theorem toProg_job (j : FlashM α) :
    toProg (job j : StoreT Device SyncKey α) = run j := toProg_ofProg _ _

@[simp] theorem toProg_mirrors (p : StoreM Device SyncKey α) : toProg (mirrors p) = p :=
  toProg_ofProg _ _

@[simp] theorem toProg_reading (kind : Kind) (key : Bytes) (mirrored : β → Bool)
    (j : FlashM (Option β)) :
    toProg (reading kind key mirrored j : StoreT Device SyncKey (Option β)) = run j :=
  toProg_ofProg _ _

theorem toProg_writing (p : StoreT Device SyncKey α) :
    toProg (writing p) = writeOperation >>= fun _ => toProg p := by
  rw [writing, toProg_withLock, toProg_bind, toProg_mirrors]

theorem toProg_gatedWrite (gate : StoreM Device SyncKey Unit) (j : FlashM α)
    (change : StoreInner Device SyncKey → StoreInner Device SyncKey) :
    toProg (gatedWrite gate j change) = (do
      writeOperation
      gate
      let _ ← run j
      update change) := by
  simp only [gatedWrite, toProg_writing, toProg_withLock, toProg_bind, toProg_mirrors, toProg_job]

theorem toProg_plainWrite (j : FlashM α)
    (change : StoreInner Device SyncKey → StoreInner Device SyncKey) :
    toProg (plainWrite j change) = (do
      writeOperation
      let _ ← run j
      update change) := by
  simp only [plainWrite, toProg_writing, toProg_withLock, toProg_bind, toProg_mirrors, toProg_job]

theorem toProg_batchEntry (gate : StoreM Device SyncKey Unit) (j : FlashM α)
    (change : StoreInner Device SyncKey → StoreInner Device SyncKey) :
    toProg (batchEntry gate j change) = (do
      gate
      let _ ← run j
      update change) := by
  simp only [batchEntry, toProg_withLock, toProg_bind, toProg_mirrors, toProg_job]

theorem toProg_entriesInTurn {ι : Type} (entry : ι → StoreT Device SyncKey Unit)
    (entries : List ι) :
    toProg (entriesInTurn entry entries) = inTurn (fun e => toProg (entry e)) entries := by
  induction entries with
  | nil => rfl
  | cons e entries ih => rw [entriesInTurn, toProg_bind, ih, inTurn]

/-- The shape of the lookups: the mirror first, then the flash. -/
theorem toProg_lookup {get : StoreInner Device SyncKey → Option β}
    {touch : StoreInner Device SyncKey → StoreInner Device SyncKey}
    {k : Option β → StoreT Device SyncKey (Option β)}
    {k' : Option β → StoreM Device SyncKey (Option β)} (hsome : ∀ v, k (some v) = pure (some v))
    (hsome' : ∀ v, k' (some v) = update touch >>= fun _ => pure (some v))
    (hnone : toProg (k none) = k' none) :
    toProg (withLock .inner (mirrors (lookup get touch)) >>= k : StoreT Device SyncKey (Option β)) =
      withInner get >>= k' := by
  rw [toProg_bind, toProg_withLock, toProg_mirrors, lookup, Prog.bind_assoc]
  congr 1
  funext r
  cases r with
  | some v =>
    simp only
    rw [Prog.bind_assoc, hsome']
    congr 1
    funext _
    show toProg (k (some v)) = _
    rw [hsome]
    rfl
  | none => exact hnone

theorem toProg_loadIdentity (address : String) :
    toProg (loadIdentity P address) = NvsStore.loadIdentity P address := by
  unfold loadIdentity NvsStore.loadIdentity
  refine toProg_lookup (fun _ => rfl) (fun _ => rfl) ?_
  simp only [toProg_bind, toProg_reading]
  congr 1
  funext bytes
  cases bytes with
  | none => rfl
  | some bytes =>
    simp only
    cases toIdentityKey bytes with
    | none => rfl
    | some key => simp only [toProg_bind, toProg_withLock, toProg_mirrors, toProg_pure]

theorem toProg_getSession (address : String) :
    toProg (getSession P address) = NvsStore.getSession P address := by
  unfold getSession NvsStore.getSession
  refine toProg_lookup (fun _ => rfl) (fun _ => rfl) ?_
  simp only [toProg_bind, toProg_reading]
  congr 1
  funext session
  cases session with
  | none => rfl
  | some session => simp only [toProg_bind, toProg_withLock, toProg_mirrors, toProg_pure]

theorem toProg_getSyncKey (keyId : Bytes) :
    toProg (getSyncKey P keyId) = NvsStore.getSyncKey P keyId := by
  unfold getSyncKey NvsStore.getSyncKey
  refine toProg_lookup (fun _ => rfl) (fun _ => rfl) ?_
  simp only [toProg_bind, toProg_reading]
  congr 1
  funext key
  cases key with
  | none => rfl
  | some key => simp only [toProg_bind, toProg_withLock, toProg_mirrors, toProg_pure]

theorem toProg_putSession (address : String) (session : Bytes) :
    toProg (putSession P address session) = NvsStore.putSession P address session := by
  unfold putSession NvsStore.putSession
  split_ifs with hlen
  · rfl
  · simp only [toProg_writing, toProg_withLock, toProg_bind, toProg_mirrors, toProg_job]
    congr 1
    funext _
    congr 1
    funext _
    congr 1
    funext name
    cases encodeRecord (asBytes address) session with
    | error e => rfl
    | ok record =>
      simp only [toProg_bind, toProg_mirrors, toProg_job]
      rfl

theorem toProg_setSyncKey (keyId : Bytes) (key : SyncKey) :
    toProg (setSyncKey P keyId key) = NvsStore.setSyncKey P keyId key := by
  unfold setSyncKey NvsStore.setSyncKey
  simp only [toProg_writing, toProg_withLock, toProg_bind, toProg_mirrors]
  cases P.syncKey.toVec key with
  | error e => rfl
  | ok payload =>
    simp only [toProg_bind, toProg_mirrors, toProg_job]
    rfl

theorem toProg_hasSignalStateForUser (user : String) :
    toProg (hasSignalStateForUser P user) = NvsStore.hasSignalStateForUser P user := by
  unfold hasSignalStateForUser NvsStore.hasSignalStateForUser
  rw [toProg_bind, toProg_withLock, toProg_mirrors]
  congr 1
  funext mirrored
  split_ifs
  · rfl
  · rfl
  · simp only [toProg_bind, toProg_job, toProg_pure]

end Threaded

open Thread Threaded

/-- **A call that runs alone** does what the sequential model says. -/
theorem toProg_task (call : Call Device SyncKey α) (hcall : call.isReboot = false) :
    toProg (task P call) = exec P call := by
  cases call with
  | putIdentity address key => exact toProg_gatedWrite _ _ _
  | putIdentitiesBatch entries =>
    show toProg (Threaded.putIdentitiesBatch P entries) = NvsStore.putIdentitiesBatch P entries
    unfold Threaded.putIdentitiesBatch NvsStore.putIdentitiesBatch
    split_ifs with hnil
    · rfl
    -- run alone, the locks and their gaps make no difference
    · rw [toProg_writing, toProg_entriesInTurn, putIdentities_eq]
      simp only [toProg_batchEntry]
      rfl
  | loadIdentity address => exact toProg_loadIdentity address
  | deleteIdentity address => exact toProg_plainWrite _ _
  | putSession address session => exact toProg_putSession address session
  | putSessionsBatch entries =>
    show toProg (Threaded.putSessionsBatch P entries) = NvsStore.putSessionsBatch P entries
    unfold Threaded.putSessionsBatch NvsStore.putSessionsBatch
    split_ifs with hnil
    · rfl
    · rw [toProg_writing, toProg_entriesInTurn, putSessions_eq]
      simp only [toProg_batchEntry]
      rfl
  | getSession address => exact toProg_getSession address
  | deleteSession address => exact toProg_plainWrite _ _
  | hasSignalStateForUser user => exact toProg_hasSignalStateForUser user
  | storePrekey id record => exact toProg_gatedWrite _ _ _
  | loadPrekey id => rfl
  | removePrekey id => exact toProg_plainWrite _ _
  | storeSignedPrekey id record => exact toProg_gatedWrite _ _ _
  | loadSignedPrekey id => rfl
  | removeSignedPrekey id => exact toProg_plainWrite _ _
  | putSenderKey address record => exact toProg_gatedWrite _ _ _
  | getSenderKey address => rfl
  | deleteSenderKey address => exact toProg_plainWrite _ _
  | setSyncKey keyId key => exact toProg_setSyncKey keyId key
  | getSyncKey keyId => exact toProg_getSyncKey keyId
  | getLatestSyncKeyId => rfl
  | save device => exact toProg_plainWrite _ _
  | listSessions =>
    show toProg (Threaded.listSessions P) = NvsStore.listSessions P
    unfold Threaded.listSessions NvsStore.listSessions
    split_ifs
    · rfl
    · exact toProg_job _
  | clearSessions =>
    show toProg (Threaded.clearSessions P) = NvsStore.clearSessions P
    unfold Threaded.clearSessions NvsStore.clearSessions
    simp only [toProg_withLock, toProg_bind, toProg_mirrors, toProg_job, toProg_pure]
  | reset =>
    show toProg (Threaded.reset P) = NvsStore.reset P
    unfold Threaded.reset NvsStore.reset
    simp only [toProg_withLock, toProg_bind, toProg_mirrors, toProg_job]
  | sealWrites => rfl
  | reboot => cases hcall

end WhatsappEsp32
