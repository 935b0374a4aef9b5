import WhatsappEsp32.Storage.Nvs

/-!
# The flash side of the store

The methods of `FlashNamespaces`: loading, checking, writing and deleting single records, walking
a namespace, and the erasures behind a factory reset.
-/

namespace WhatsappEsp32

open CrashLogic

/-- The bound on the serialized device. -/
def maxDeviceLen : ℕ := 64 * 1024

/-- The bound on any other record. -/
def maxSignalRecordLen : ℕ := 64 * 1024

/-- The cap of the identity namespace. -/
def maxIdentities : ℕ := 2048

/-- The cap of the session namespace. -/
def maxSessions : ℕ := 2048

/-- The cap of the pre-key namespace. -/
def maxPrekeys : ℕ := 256

/-- The cap of the signed pre-key namespace. -/
def maxSignedPrekeys : ℕ := 16

/-- The cap of the sender key namespace. -/
def maxSenderKeys : ℕ := 2048

/-- The cap of the sync key namespace. -/
def maxSyncKeys : ℕ := 256

/-- `ensure_insert_capacity`: a full map takes no new key. -/
def ensureInsertCapacity (exist : Bool) (len max : ℕ) (label : String) : Except StoreError Unit :=
  if !exist ∧ len ≥ max then
    .error (.validation s!"{label} storage limit reached ({max} records)")
  else
    .ok ()

variable {Device SyncKey : Type} (P : Platform Device SyncKey)

namespace FlashNamespaces

/-- Cache only validated session names and logical keys. -/
def rememberSessionSlot (n : Ns) (name : String) (key : Bytes) : FlashM Unit :=
  if n ≠ .records .sessions then
    pure ()
  else
    Prog.modify fun f => { f with validatedSessions := f.validatedSessions.remember name key }

/-- `load_device`. -/
def loadDevice : FlashM (Option Device) := do
  match ← readBlob .device "current" (recordHeaderLen + (asBytes "device").length + maxDeviceLen) with
  | none => pure none
  | some record =>
    let (logicalKey, payload) ← Prog.ofExcept (decodeRecord record)
    if logicalKey ≠ asBytes "device" then
      .throw (.validation "device record contains the wrong logical key")
    else
      match P.device.fromSlice payload with
      | .ok device => pure (some device)
      | .error error => .throw (.serialization error)

/-- `save_device`. -/
def saveDevice (device : Device) : FlashM Unit :=
  match P.device.toVec device with
  | .error error => .throw (.serialization error)
  | .ok payload => do
    if payload.length > maxDeviceLen then
      .throw (.validation s!"device record is too large: {payload.length} bytes")
    else
      let record ← Prog.ofExcept (encodeRecord (asBytes "device") payload)
      setBlob .device "current" record

/-- Read and validate the record under `name`, as both boot-replay loops do. -/
def readRecord (n : Ns) (label : String) (maxValueLen : ℕ) (name : String) :
    FlashM (Bytes × Bytes) := do
  match ← readBlob n name (recordHeaderLen + maxLogicalKeyLen + maxValueLen) with
  | none => .throw (.validation s!"{label} record '{name}' disappeared during startup")
  | some record =>
    let (logicalKey, value) ← Prog.ofExcept (decodeRecord record)
    if P.recordName logicalKey ≠ name then
      .throw (.validation s!"{label} record '{name}' has a mismatched logical key")
    else if value.length > maxValueLen then
      .throw (.validation s!"{label} record '{name}' is too large: {value.length} bytes")
    else
      pure (logicalKey, value)

/-- The loop of `load_records`. -/
def loadNames (n : Ns) (label : String) (maxValueLen : ℕ) :
    List String → FlashM (List (Bytes × Bytes))
  | [] => pure []
  | name :: names => do
    let entry ← readRecord P n label maxValueLen name
    let entries ← loadNames n label maxValueLen names
    pure (entry :: entries)

/-- `load_records`: every record of a namespace, each checked against its name. -/
def loadRecords (n : Ns) (label : String) (maxEntries maxValueLen : ℕ) :
    FlashM (List (Bytes × Bytes)) := do
  let names ← recordNames P n
  if names.length > maxEntries then
    .throw (.validation
      s!"{label} namespace has {names.length} records; maximum is {maxEntries}")
  else
    loadNames P n label maxValueLen names

/-- The loop of `visit_records`; the visitor's captured state is `s`. -/
def visitNames {S : Type} (n : Ns) (label : String) (maxValueLen : ℕ)
    (visit : S → Bytes → Bytes → Except StoreError S) : List String → S → FlashM S
  | [], s => pure s
  | name :: names, s => do
    let (logicalKey, value) ← readRecord P n label maxValueLen name
    let s ← Prog.ofExcept (visit s logicalKey value)
    visitNames n label maxValueLen visit names s

/-- `visit_records`: the records are handed to `visit` one at a time. -/
def visitRecords {S : Type} (n : Ns) (label : String) (maxEntries maxValueLen : ℕ)
    (visit : S → Bytes → Bytes → Except StoreError S) (s : S) : FlashM S := do
  let names ← recordNames P n
  if names.length > maxEntries then
    .throw (.other s!"{label} namespace has {names.length} records; maximum is {maxEntries}")
  else
    visitNames P n label maxValueLen visit names s

/-- The in-place compaction of `load_record` (`copy_within`, `truncate`) leaves the value. -/
def loadRecord (n : Ns) (logicalKey : Bytes) (maxValueLen : ℕ) : FlashM (Option Bytes) := do
  let name := P.recordName logicalKey
  match ← readBlob n name (recordHeaderLen + maxLogicalKeyLen + maxValueLen) with
  | none => pure none
  | some record =>
    let (storedKey, value) ← Prog.ofExcept (decodeRecord record)
    if storedKey ≠ logicalKey then
      pure none
    else if value.length > maxValueLen then
      .throw (.validation s!"record '{name}' is too large: {value.length} bytes")
    else
      rememberSessionSlot n name logicalKey
      let payloadStart := record.length - value.length
      pure (some ((record.drop payloadStart).take value.length))

/-- `load_sync_key`. -/
def loadSyncKey (keyId : Bytes) : FlashM (Option SyncKey) := do
  match ← loadRecord P (.records .syncKeys) keyId maxSignalRecordLen with
  | none => pure none
  | some value =>
    match P.syncKey.fromSlice value with
    | .ok key => pure (some key)
    | .error error => .throw (.serialization error)

/-- The part of `check_record_slot` that consults the flash. -/
def checkFlashSlot (n : Ns) (logicalKey : Bytes) (label : String) (maxEntries : ℕ) :
    FlashM String := do
  let name := P.recordName logicalKey
  match ← readBlob n name (recordHeaderLen + maxLogicalKeyLen + maxSignalRecordLen) with
  | some existing =>
    let (storedKey, _) ← Prog.ofExcept (decodeRecord existing)
    if storedKey ≠ logicalKey then
      .throw (.validation s!"{label} NVS key collision at '{name}'")
    else
      rememberSessionSlot n name logicalKey
      pure name
  | none =>
    let count ← recordCount n
    Prog.ofExcept (ensureInsertCapacity false count maxEntries label)
    pure name

/-- The cached slot of a session, if there is one. -/
def cachedSlot (n : Ns) (logicalKey : Bytes) (f : FlashNamespaces) : Option Bool :=
  if n = .records .sessions then
    f.validatedSessions.lookupMatches (P.recordName logicalKey) logicalKey
  else
    none

/-- `check_record_slot`: the name for a key, free or holding a record of the same key. -/
def checkRecordSlot (n : Ns) (logicalKey : Bytes) (valueLen : ℕ) (label : String)
    (maxEntries : ℕ) : FlashM String := do
  if valueLen > maxSignalRecordLen then
    .throw (.validation s!"{label} record is too large: {valueLen} bytes")
  else if logicalKey.length > maxLogicalKeyLen then
    .throw (.validation s!"logical storage key is too long: {logicalKey.length} bytes")
  else
    let name := P.recordName logicalKey
    let f ← Prog.get
    match cachedSlot P n logicalKey f with
    | some false => .throw (.validation s!"{label} NVS key collision at '{name}'")
    | some true => pure name
    | none => checkFlashSlot P n logicalKey label maxEntries

/-- `prepare_record`: the name and the bytes of the record, nothing written yet. -/
def prepareRecord (n : Ns) (logicalKey value : Bytes) (label : String) (maxEntries : ℕ) :
    FlashM (String × Bytes) := do
  let name ← checkRecordSlot P n logicalKey value.length label maxEntries
  let record ← Prog.ofExcept (encodeRecord logicalKey value)
  pure (name, record)

/-- `put_record`. -/
def putRecord (n : Ns) (logicalKey value : Bytes) (label : String) (maxEntries : ℕ) :
    FlashM Unit := do
  let (name, record) ← prepareRecord P n logicalKey value label maxEntries
  setBlob n name record

/-- Invalidate the cached slots before a session is deleted. -/
def forgetSessionSlots (n : Ns) : FlashM Unit :=
  if n = .records .sessions then Prog.modify clearSlots else pure ()

/-- `delete_record`: the record is removed only if its key is the one asked for. -/
def deleteRecord (n : Ns) (logicalKey : Bytes) (label : String) : FlashM Unit := do
  forgetSessionSlots n
  let name := P.recordName logicalKey
  match ← readBlob n name (recordHeaderLen + maxLogicalKeyLen + maxSignalRecordLen) with
  | none => pure ()
  | some existing =>
    let (storedKey, _) ← Prog.ofExcept (decodeRecord existing)
    if storedKey ≠ logicalKey then
      .throw (.validation s!"{label} NVS key collision at '{name}'")
    else
      nvsRemove n name

/-- The order in which `has_signal_records` and `erase_signal` go through the namespaces. -/
def signalKinds : List (Kind × String) :=
  [(.identities, "identity"), (.sessions, "session"), (.prekeys, "prekey"),
    (.signedPrekeys, "signed prekey"), (.senderKeys, "sender key"), (.syncKeys, "sync key")]

/-- The loop of `has_signal_records`. -/
def anySignalRecords : List (Kind × String) → FlashM Bool
  | [] => pure false
  | (kind, _) :: kinds => do
    let names ← recordNames P (.records kind)
    if names ≠ [] then pure true else anySignalRecords kinds

/-- `has_signal_records`. -/
def hasSignalRecords : FlashM Bool := anySignalRecords P signalKinds

/-- The erasures of `erase_signal`, in order. -/
def eraseKinds : List (Kind × String) → FlashM Unit
  | [] => pure ()
  | (kind, label) :: kinds => do
    eraseNamespace P (.records kind) label
    eraseKinds kinds

/-- `erase_signal`: the latest id first, then the six namespaces. -/
def eraseSignal : FlashM Unit := do
  Prog.modify clearSlots
  removeBlob .control "latestsync"
  eraseKinds P signalKinds

/-- `erase_all`: the device first. -/
def eraseAll : FlashM Unit := do
  eraseNamespace P .device "device"
  eraseSignal P

/-- `load_latest_sync_key_id`. -/
def loadLatestSyncKeyId : FlashM (Option Bytes) := do
  match ← readBlob .control "latestsync"
      (recordHeaderLen + (asBytes "latestsync").length + maxLogicalKeyLen) with
  | none => pure none
  | some record =>
    let (logicalKey, payload) ← Prog.ofExcept (decodeRecord record)
    if logicalKey ≠ asBytes "latestsync" then
      .throw (.validation "latest sync key record contains the wrong logical key")
    else
      pure (some payload)

/-- `save_latest_sync_key_id`. -/
def saveLatestSyncKeyId (keyId : Bytes) : FlashM Unit :=
  if keyId.length > maxLogicalKeyLen then
    .throw (.validation s!"sync key id is too long: {keyId.length} bytes")
  else do
    let record ← Prog.ofExcept (encodeRecord (asBytes "latestsync") keyId)
    setBlob .control "latestsync" record

/-- `reset_pending`: the marker of an unfinished reset is there. -/
def resetPending : FlashM Bool := do
  let marker ← readBlob .control "reset" 1
  pure marker.isSome

/-- `complete_reset`: the marker goes last. -/
def completeReset : FlashM Unit := do
  eraseAll P
  removeBlob .control "reset"

/-- `reset_all`: the marker is committed before anything is erased. -/
def resetAll : FlashM Unit := do
  setBlob .control "reset" (asBytes "1")
  completeReset P

end FlashNamespaces

/-- The loop of `namespace_addresses`. -/
def addressesOf (n : Ns) (label : String) : List String → FlashM (List String)
  | [] => pure []
  | name :: names => do
    match ← readBlob n name (recordHeaderLen + maxLogicalKeyLen + maxSignalRecordLen) with
    | none => addressesOf n label names
    | some record =>
      let (key, _) ← Prog.ofExcept (decodeRecord record)
      match fromUtf8 key with
      | none => .throw (.validation s!"invalid {label} key: {RustStr.utf8ErrorText key}")
      | some address =>
        let addresses ← addressesOf n label names
        pure (address :: addresses)

/-- Every address persisted in a string-keyed namespace. -/
def namespaceAddresses (n : Ns) (label : String) : FlashM (List String) := do
  let names ← recordNames P n
  addressesOf n label names

end WhatsappEsp32
