import WhatsappEsp32.Storage.Flash

/-!
# The store

`StoreInner` (the RAM mirrors), `NvsStore` and its operations, one at a time: `open` with its boot
replay, the single and batch writes, the lookups, the deletes, `clear_sessions`, `reset` and
`seal_writes`.  A section that holds the inner lock and a job on the flash worker appear here in
the order in which one caller performs them.

The three mirrors that are capped without PSRAM (`identities`, `sessions`, `sync_keys`) carry
their use order with them, as `Mirror`s.
-/

namespace WhatsappEsp32

open CrashLogic FlashNamespaces

/-! ### Capped mirrors -/

/-- `LruOrder`: the keys of a mirror, the least recently used first. -/
abbrev LruOrder (K : Type) := List K

namespace LruOrder

variable {K : Type} [DecidableEq K]

/-- `touched`: the key moves to the back. -/
def touched (order : LruOrder K) (key : K) : LruOrder K := order.erase key ++ [key]

/-- `removed`. -/
def removed (order : LruOrder K) (key : K) : LruOrder K := order.erase key

/-- Oldest-first keys to drop so that `len` entries fit `cap`. -/
def overflow (order : LruOrder K) (len cap : ℕ) : List K :=
  if len > cap then order.take (len - cap) else []

end LruOrder

/-- A mirror map with its use order. -/
structure Mirror (K V : Type) where
  map : Dict K V := ∅
  order : LruOrder K := []

namespace Mirror

variable {K V : Type} [DecidableEq K]

/-- `map.insert(key, value); order.touched(key)`. -/
def insert (m : Mirror K V) (key : K) (value : V) : Mirror K V :=
  ⟨m.map.insert key value, LruOrder.touched m.order key⟩

/-- A read hit counts as use. -/
def touch (m : Mirror K V) (key : K) : Mirror K V := ⟨m.map, LruOrder.touched m.order key⟩

/-- `map.remove(key); order.removed(key)`. -/
def remove (m : Mirror K V) (key : K) : Mirror K V :=
  ⟨m.map.erase key, LruOrder.removed m.order key⟩

/-- The eviction loop of the `enforce_*_cap` functions. -/
def evict (m : Mirror K V) (keys : List K) : Mirror K V := keys.foldl remove m

/-- Drop the least recently used entries beyond `cap`, unless the board has PSRAM. -/
def enforceCap (hasPsram : Bool) (cap : ℕ) (m : Mirror K V) : Mirror K V :=
  if hasPsram then m else m.evict (LruOrder.overflow m.order m.map.size cap)

/-- The same with a cap of 8, sparing the key `spared`. -/
def enforceCapExcept (hasPsram : Bool) (spared : Option K) (m : Mirror K V) : Mirror K V :=
  if hasPsram then
    m
  else
    let excess := m.map.size - 8
    let keysToRemove :=
      ((LruOrder.overflow m.order m.map.size 8).filter fun k => some k ≠ spared).take excess
    m.evict keysToRemove

end Mirror

/-! ### State -/

/-- A 32-byte identity key. -/
abbrev IdentityKey := {key : Bytes // key.length = 32}

/-- `try_into` of a slice to `[u8; 32]`. -/
def toIdentityKey (value : Bytes) : Option IdentityKey :=
  if h : value.length = 32 then some ⟨value, h⟩ else none

/-- The persisted part of `StoreInner`. -/
structure StoreInner (Device SyncKey : Type) where
  device : Option Device := none
  identities : Mirror String IdentityKey := {}
  sessions : Mirror String Bytes := {}
  prekeys : Dict UInt32 Bytes := ∅
  signedPrekeys : Dict UInt32 Bytes := ∅
  senderKeys : Dict String Bytes := ∅
  syncKeys : Mirror Bytes SyncKey := {}
  latestSyncKeyId : Option Bytes := none

/-- `NvsStore`: the mirror under its lock, the flash behind its worker, and the seal. -/
structure NvsStore (Device SyncKey : Type) where
  inner : StoreInner Device SyncKey
  flash : FlashNamespaces
  acceptingWrites : Bool

/-- Operations of the store. -/
abbrev StoreM (Device SyncKey : Type) := Prog (NvsStore Device SyncKey) StoreError

variable {Device SyncKey α : Type} (P : Platform Device SyncKey)

namespace StoreInner

/-- `enforce_identities_cap`: without PSRAM eight identities stay. -/
def enforceIdentitiesCap (s : StoreInner Device SyncKey) : StoreInner Device SyncKey :=
  { s with identities := s.identities.enforceCap P.hasPsram 8 }

/-- Without PSRAM no session stays in the mirror. -/
def enforceSessionsCap (s : StoreInner Device SyncKey) : StoreInner Device SyncKey :=
  { s with sessions := s.sessions.enforceCap P.hasPsram 0 }

/-- `enforce_sync_keys_cap_except`: the key `spared` is passed over. -/
def enforceSyncKeysCapExcept (spared : Option Bytes) (s : StoreInner Device SyncKey) :
    StoreInner Device SyncKey :=
  { s with syncKeys := s.syncKeys.enforceCapExcept P.hasPsram spared }

/-- `enforce_sync_keys_cap`: the latest key is passed over. -/
def enforceSyncKeysCap (s : StoreInner Device SyncKey) : StoreInner Device SyncKey :=
  s.enforceSyncKeysCapExcept P s.latestSyncKeyId

/-- Insert, touch and cap, as every write and reload of an identity does. -/
def mirrorIdentity (address : String) (key : IdentityKey) (s : StoreInner Device SyncKey) :
    StoreInner Device SyncKey :=
  { s with identities := s.identities.insert address key }.enforceIdentitiesCap P

/-- What a call does to the mirror with a session it has written or read. -/
def mirrorSession (address : String) (session : Bytes) (s : StoreInner Device SyncKey) :
    StoreInner Device SyncKey :=
  { s with sessions := s.sessions.insert address session }.enforceSessionsCap P

/-- What a call does to the mirror with a sync key it has written or read. -/
def mirrorSyncKey (keyId : Bytes) (key : SyncKey) (s : StoreInner Device SyncKey) :
    StoreInner Device SyncKey :=
  { s with syncKeys := s.syncKeys.insert keyId key }.enforceSyncKeysCap P

end StoreInner

namespace NvsStore

/-- `FlashWorker::run`. -/
def run (job : FlashM α) : StoreM Device SyncKey α :=
  Prog.zoom NvsStore.flash (fun s f => { s with flash := f }) job

/-- Read the mirrors under the inner lock. -/
def withInner (f : StoreInner Device SyncKey → α) : StoreM Device SyncKey α := fun s =>
  (.ok (f s.inner), s)

/-- Change the mirrors under the inner lock. -/
def update (f : StoreInner Device SyncKey → StoreInner Device SyncKey) :
    StoreM Device SyncKey Unit := Prog.modify fun s => { s with inner := f s.inner }

/-- `write_operation`: nothing is written behind the seal. -/
def writeOperation : StoreM Device SyncKey Unit := do
  let s ← Prog.get
  if s.acceptingWrites then
    pure ()
  else
    .throw (.validation "WhatsApp storage is sealed for maintenance")

/-! ### Opening -/

/-- The visitor of the identity replay. -/
def visitIdentity (inner : StoreInner Device SyncKey) (key value : Bytes) :
    Except StoreError (StoreInner Device SyncKey) := do
  let address ← decodeStringKey key "identity"
  match toIdentityKey value with
  | none => .error (.other s!"identity record for '{address}' has {value.length} bytes")
  | some key =>
    if (inner.identities.map.lookup address).isSome then
      .error (.other "duplicate identity record in WhatsApp NVS")
    else
      .ok (inner.mirrorIdentity P address key)

/-- The visitor of the session replay. -/
def visitSession (inner : StoreInner Device SyncKey) (key value : Bytes) :
    Except StoreError (StoreInner Device SyncKey) := do
  let address ← decodeStringKey key "session"
  if (inner.sessions.map.lookup address).isSome then
    .error (.other "duplicate session record in WhatsApp NVS")
  else
    .ok (inner.mirrorSession P address value)

/-- The loops over loaded records insert each entry into one map, which must not have it yet. -/
def insertLoaded {K : Type} [DecidableEq K] (decodeKey : Bytes → Except StoreError K)
    (duplicate : String) : Dict K Bytes → List (Bytes × Bytes) → Except StoreError (Dict K Bytes)
  | map, [] => .ok map
  | map, (key, value) :: entries => do
    let id ← decodeKey key
    if (map.lookup id).isSome then
      .error (.other duplicate)
    else
      insertLoaded decodeKey duplicate (map.insert id value) entries

/-- The visitor of the sync-key replay, with the newest key by timestamp seen so far. -/
def visitSyncKey (state : StoreInner Device SyncKey × Option Bytes) (keyId value : Bytes) :
    Except StoreError (StoreInner Device SyncKey × Option Bytes) :=
  let (inner, timestampLatest) := state
  match P.syncKey.fromSlice value with
  | .error error => .error (.other s!"invalid sync key record: {error}")
  | .ok key =>
    let newer := match timestampLatest.bind inner.syncKeys.map.lookup with
      | none => true
      | some latest => decide (P.timestamp key ≥ P.timestamp latest)
    let timestampLatest := if newer then some keyId else timestampLatest
    if (inner.syncKeys.map.lookup keyId).isSome then
      .error (.other "duplicate sync-key record in WhatsApp NVS")
    else
      let inner := { inner with syncKeys := inner.syncKeys.insert keyId key }
      .ok (inner.enforceSyncKeysCapExcept P timestampLatest, timestampLatest)

/-- Load the key the marker names when the replay has not kept it. -/
def loadRecorded (inner : StoreInner Device SyncKey) :
    Option Bytes → FlashM (StoreInner Device SyncKey)
  | none => pure inner
  | some id => do
    if (inner.syncKeys.map.lookup id).isSome then
      pure inner
    else
      match ← (loadSyncKey P id).attempt with
      | .ok (some key) => pure { inner with syncKeys := inner.syncKeys.insert id key }
      | .ok none => pure inner
      | .error _ => pure inner

/-- Without PSRAM a mirror that is still over its cap keeps only the latest key. -/
def keepLatest (inner : StoreInner Device SyncKey) : StoreInner Device SyncKey :=
  if !P.hasPsram ∧ inner.syncKeys.map.size > 8 then
    let latest := inner.latestSyncKeyId
    let map := inner.syncKeys.map.retain fun k _ => some k = latest
    let order := match latest with
      | none => []
      | some latest => LruOrder.touched [] latest
    { inner with syncKeys := ⟨map, order⟩ }
  else
    inner

/-- Settle `latest_sync_key_id`: the recorded marker if it names a present key, else the newest
key by timestamp. -/
def resolveLatest (inner : StoreInner Device SyncKey) (timestampLatest : Option Bytes) :
    FlashM (StoreInner Device SyncKey) := do
  let recorded := match ← loadLatestSyncKeyId.attempt with
    | .ok recorded => recorded
    | .error _ => none
  let inner ← loadRecorded P inner recorded
  let latest := (recorded.filter fun id => (inner.syncKeys.map.lookup id).isSome).or timestampLatest
  pure (keepLatest P { inner with latestSyncKeyId := latest })

/-- The boot replay of a linked device. -/
def replay (device : Device) : FlashM (StoreInner Device SyncKey) := do
  let inner : StoreInner Device SyncKey := { device := some device }
  let inner ← visitRecords P (.records .identities) "identity" maxIdentities 32
    (visitIdentity P) inner
  let inner ← visitRecords P (.records .sessions) "session" maxSessions maxSignalRecordLen
    (visitSession P) inner
  let loaded ← loadRecords P (.records .prekeys) "prekey" maxPrekeys maxSignalRecordLen
  let prekeys ← Prog.ofExcept (insertLoaded (decodeU32Key · "prekey")
    "duplicate prekey record in WhatsApp NVS" ∅ loaded)
  let loaded ← loadRecords P (.records .signedPrekeys) "signed prekey" maxSignedPrekeys
    maxSignalRecordLen
  let signedPrekeys ← Prog.ofExcept (insertLoaded (decodeU32Key · "signed prekey")
    "duplicate signed-prekey record in WhatsApp NVS" ∅ loaded)
  let loaded ← loadRecords P (.records .senderKeys) "sender key" maxSenderKeys maxSignalRecordLen
  let senderKeys ← Prog.ofExcept (insertLoaded (decodeStringKey · "sender key")
    "duplicate sender-key record in WhatsApp NVS" ∅ loaded)
  let inner := { inner with prekeys, signedPrekeys, senderKeys }
  let (inner, timestampLatest) ← visitRecords P (.records .syncKeys) "sync key" maxSyncKeys
    maxSignalRecordLen (visitSyncKey P) (inner, none)
  resolveLatest P inner timestampLatest

/-- Finish a reset that a power loss interrupted. -/
def completePending : FlashM Unit := do
  let pending ← resetPending
  if pending then completeReset P else pure ()

/-- Discard Signal records that no linked device owns. -/
def discardOrphans : FlashM Unit := do
  let orphaned ← hasSignalRecords P
  if orphaned then eraseSignal P else pure ()

/-- The flash side of `NvsStore::open`, run on freshly opened namespaces. -/
def openFlash : FlashM (StoreInner Device SyncKey) := do
  completePending P
  match ← loadDevice P with
  | some device => replay P device
  | none => do
    discardOrphans P
    pure {}

/-- `NvsStore::open` on a partition, with the fates of the primitives it will call. -/
def openPartition (namespaces : Ns → Namespace) (fates : List Fate) :
    Outcome StoreError (StoreInner Device SyncKey) × FlashNamespaces :=
  openFlash P ⟨namespaces, [], fates⟩

/-- A reboot: the RAM is gone and the partition is opened again. -/
def reboot : StoreM Device SyncKey Unit := fun s =>
  match openPartition P s.flash.namespaces s.flash.fates with
  | (.ok inner, flash) => (.ok (), ⟨inner, flash, true⟩)
  | (.error error, flash) => (.error error, ⟨{}, flash, false⟩)
  | (.halted, flash) => (.halted, ⟨{}, flash, false⟩)

/-! ### Maintenance -/

/-- `list_sessions`: with PSRAM from the mirror, which then holds every session. -/
def listSessions : StoreM Device SyncKey (List String) :=
  if P.hasPsram then
    withInner fun s => s.sessions.map.keys
  else
    run (namespaceAddresses P (.records .sessions) "session")

/-- `clear_sessions`: how many there were, and none after it. -/
def clearSessions : StoreM Device SyncKey ℕ := do
  let count ← run do
    let count ← recordCount (.records .sessions)
    Prog.modify clearSlots
    eraseNamespace P (.records .sessions) "session"
    pure count
  update fun s => { s with sessions := {} }
  pure count

/-- `reset`: the flash, and then every mirror. -/
def reset : StoreM Device SyncKey Unit := do
  run (resetAll P)
  update fun _ => {}

/-- `seal_writes`. -/
def sealWrites : StoreM Device SyncKey Unit :=
  Prog.modify fun s => { s with acceptingWrites := false }

/-! ### Identities and sessions -/

/-- The capacity gate on a mirror, before the flash is touched. -/
def mirrorGate (has : StoreInner Device SyncKey → Bool) (len : StoreInner Device SyncKey → ℕ)
    (max : ℕ) (label : String) : StoreM Device SyncKey Unit := do
  let s ← Prog.get
  Prog.ofExcept (ensureInsertCapacity (has s.inner) (len s.inner) max label)

/-- The gate, the flash write and the mirror update of one identity. -/
def putIdentityBody (address : String) (key : IdentityKey) : StoreM Device SyncKey Unit := do
  mirrorGate (fun s => (s.identities.map.lookup address).isSome) (fun s => s.identities.map.size)
    maxIdentities "identity"
  run (putRecord P (.records .identities) (asBytes address) key.1 "identity" maxIdentities)
  update (StoreInner.mirrorIdentity P address key)

/-- `put_identity`. -/
def putIdentity (address : String) (key : IdentityKey) : StoreM Device SyncKey Unit := do
  writeOperation
  putIdentityBody P address key

/-- The loop of `put_identities_batch`. -/
def putIdentities : List (String × IdentityKey) → StoreM Device SyncKey Unit
  | [] => pure ()
  | (address, key) :: entries => do
    putIdentityBody P address key
    putIdentities entries

/-- `put_identities_batch`. -/
def putIdentitiesBatch (entries : List (String × IdentityKey)) : StoreM Device SyncKey Unit :=
  if entries = [] then
    pure ()
  else do
    writeOperation
    putIdentities P entries

/-- `load_identity`: a hit counts as use, a miss is read from flash and mirrored. -/
def loadIdentity (address : String) : StoreM Device SyncKey (Option IdentityKey) := do
  match ← withInner fun s => s.identities.map.lookup address with
  | some key => do
    update fun s => { s with identities := s.identities.touch address }
    pure (some key)
  | none => do
    match ← run (loadRecord P (.records .identities) (asBytes address) 32) with
    | none => pure none
    | some bytes =>
      match toIdentityKey bytes with
      | none => pure none
      | some key => do
        update (StoreInner.mirrorIdentity P address key)
        pure (some key)

/-- `delete_identity`. -/
def deleteIdentity (address : String) : StoreM Device SyncKey Unit := do
  writeOperation
  run (deleteRecord P (.records .identities) (asBytes address) "identity")
  update fun s => { s with identities := s.identities.remove address }

/-- `get_session`: the mirror, then the flash. -/
def getSession (address : String) : StoreM Device SyncKey (Option Bytes) := do
  match ← withInner fun s => s.sessions.map.lookup address with
  | some session => do
    update fun s => { s with sessions := s.sessions.touch address }
    pure (some session)
  | none => do
    match ← run (loadRecord P (.records .sessions) (asBytes address) maxSignalRecordLen) with
    | none => pure none
    | some session => do
      update (StoreInner.mirrorSession P address session)
      pure (some session)

/-- The capacity gate of the session writes. -/
def sessionGate (address : String) : StoreM Device SyncKey Unit :=
  mirrorGate (fun s => (s.sessions.map.lookup address).isSome) (fun s => s.sessions.map.size)
    maxSessions "session"

/-- The mirrored session is the value part of the encoded record. -/
def putSession (address : String) (session : Bytes) : StoreM Device SyncKey Unit := do
  if session.length > maxSignalRecordLen then
    .throw (.validation s!"session record is too large: {session.length} bytes")
  else
    writeOperation
    sessionGate address
    let logicalKey := asBytes address
    let name ← run (checkRecordSlot P (.records .sessions) logicalKey session.length "session"
      maxSessions)
    let record ← Prog.ofExcept (encodeRecord logicalKey session)
    let mirrored := record.drop (recordHeaderLen + logicalKey.length)
    run (setBlob (.records .sessions) name record)
    update (StoreInner.mirrorSession P address mirrored)

/-- The gate, the flash write and the mirror update of one entry of a session batch. -/
def putSessionBody (address : String) (session : Bytes) : StoreM Device SyncKey Unit := do
  sessionGate address
  run (putRecord P (.records .sessions) (asBytes address) session "session" maxSessions)
  update (StoreInner.mirrorSession P address session)

/-- The loop of `put_sessions_batch`. -/
def putSessions : List (String × Bytes) → StoreM Device SyncKey Unit
  | [] => pure ()
  | (address, session) :: entries => do
    putSessionBody P address session
    putSessions entries

/-- `put_sessions_batch`. -/
def putSessionsBatch (entries : List (String × Bytes)) : StoreM Device SyncKey Unit :=
  if entries = [] then
    pure ()
  else do
    writeOperation
    putSessions P entries

/-- `delete_session`. -/
def deleteSession (address : String) : StoreM Device SyncKey Unit := do
  writeOperation
  run (deleteRecord P (.records .sessions) (asBytes address) "session")
  update fun s => { s with sessions := s.sessions.remove address }

/-- Whether `address` is `user` followed by `@` or `:`. -/
def addressMatches (address user : String) : Bool :=
  user.toList.isPrefixOf address.toList &&
    match address.toList.drop user.toList.length with
    | c :: _ => c = '@' || c = ':'
    | [] => false

/-- `has_signal_state_for_user`: a session or an identity of any device of the user. -/
def hasSignalStateForUser (user : String) : StoreM Device SyncKey Bool := do
  let mirrored ← withInner fun s => s.sessions.map.keys.any (addressMatches · user) ||
    s.identities.map.keys.any (addressMatches · user)
  if mirrored then
    pure true
  else if P.hasPsram then
    pure false
  else
    let addresses ← run do
      let sessions ← namespaceAddresses P (.records .sessions) "session"
      let identities ← namespaceAddresses P (.records .identities) "identity"
      pure (sessions ++ identities)
    pure (addresses.any (addressMatches · user))

/-! ### Prekeys, signed prekeys and sender keys -/

/-- `store_prekey`. -/
def storePrekey (id : UInt32) (record : Bytes) : StoreM Device SyncKey Unit := do
  writeOperation
  mirrorGate (fun s => (s.prekeys.lookup id).isSome) (fun s => s.prekeys.size) maxPrekeys "prekey"
  run (putRecord P (.records .prekeys) (u32ToLeBytes id) record "prekey" maxPrekeys)
  update fun s => { s with prekeys := s.prekeys.insert id record }

/-- `load_prekey`: pre-keys are all mirrored. -/
def loadPrekey (id : UInt32) : StoreM Device SyncKey (Option Bytes) :=
  withInner fun s => s.prekeys.lookup id

/-- `remove_prekey`. -/
def removePrekey (id : UInt32) : StoreM Device SyncKey Unit := do
  writeOperation
  run (deleteRecord P (.records .prekeys) (u32ToLeBytes id) "prekey")
  update fun s => { s with prekeys := s.prekeys.erase id }

/-- `store_signed_prekey`. -/
def storeSignedPrekey (id : UInt32) (record : Bytes) : StoreM Device SyncKey Unit := do
  writeOperation
  mirrorGate (fun s => (s.signedPrekeys.lookup id).isSome) (fun s => s.signedPrekeys.size)
    maxSignedPrekeys "signed prekey"
  run (putRecord P (.records .signedPrekeys) (u32ToLeBytes id) record "signed prekey"
    maxSignedPrekeys)
  update fun s => { s with signedPrekeys := s.signedPrekeys.insert id record }

/-- `load_signed_prekey`. -/
def loadSignedPrekey (id : UInt32) : StoreM Device SyncKey (Option Bytes) :=
  withInner fun s => s.signedPrekeys.lookup id

/-- `remove_signed_prekey`. -/
def removeSignedPrekey (id : UInt32) : StoreM Device SyncKey Unit := do
  writeOperation
  run (deleteRecord P (.records .signedPrekeys) (u32ToLeBytes id) "signed prekey")
  update fun s => { s with signedPrekeys := s.signedPrekeys.erase id }

/-- `put_sender_key`. -/
def putSenderKey (address : String) (record : Bytes) : StoreM Device SyncKey Unit := do
  writeOperation
  mirrorGate (fun s => (s.senderKeys.lookup address).isSome) (fun s => s.senderKeys.size)
    maxSenderKeys "sender key"
  run (putRecord P (.records .senderKeys) (asBytes address) record "sender key" maxSenderKeys)
  update fun s => { s with senderKeys := s.senderKeys.insert address record }

/-- `get_sender_key`: sender keys are all mirrored. -/
def getSenderKey (address : String) : StoreM Device SyncKey (Option Bytes) :=
  withInner fun s => s.senderKeys.lookup address

/-- `delete_sender_key`. -/
def deleteSenderKey (address : String) : StoreM Device SyncKey Unit := do
  writeOperation
  run (deleteRecord P (.records .senderKeys) (asBytes address) "sender key")
  update fun s => { s with senderKeys := s.senderKeys.erase address }

/-! ### Sync keys and the device -/

/-- `get_sync_key`: the mirror, then the flash. -/
def getSyncKey (keyId : Bytes) : StoreM Device SyncKey (Option SyncKey) := do
  match ← withInner fun s => s.syncKeys.map.lookup keyId with
  | some key => do
    update fun s => { s with syncKeys := s.syncKeys.touch keyId }
    pure (some key)
  | none => do
    match ← run (loadSyncKey P keyId) with
    | none => pure none
    | some key => do
      update (StoreInner.mirrorSyncKey P keyId key)
      pure (some key)

/-- The flash job of `set_sync_key`: validate, write the marker, then the key. -/
def writeSyncKey (keyId payload : Bytes) : FlashM Unit := do
  let (name, record) ← prepareRecord P (.records .syncKeys) keyId payload "sync key" maxSyncKeys
  saveLatestSyncKeyId keyId
  setBlob (.records .syncKeys) name record

/-- `set_sync_key`: the mirror follows only after both writes of the job. -/
def setSyncKey (keyId : Bytes) (key : SyncKey) : StoreM Device SyncKey Unit := do
  writeOperation
  mirrorGate (fun s => (s.syncKeys.map.lookup keyId).isSome) (fun s => s.syncKeys.map.size)
    maxSyncKeys "sync key"
  match P.syncKey.toVec key with
  | .error error => .throw (.serialization error)
  | .ok payload =>
    run (writeSyncKey P keyId payload)
    update fun s => { s with latestSyncKeyId := some keyId }.mirrorSyncKey P keyId key

/-- `get_latest_sync_key_id`. -/
def getLatestSyncKeyId : StoreM Device SyncKey (Option Bytes) :=
  withInner fun s => s.latestSyncKeyId

/-- `save` of the device. -/
def save (device : Device) : StoreM Device SyncKey Unit := do
  writeOperation
  run (saveDevice P device)
  update fun s => { s with device := some device }

end NvsStore

end WhatsappEsp32
