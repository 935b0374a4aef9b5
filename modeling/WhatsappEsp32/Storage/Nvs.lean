import WhatsappEsp32.Lib.CrashLogic
import WhatsappEsp32.Lib.Dict
import WhatsappEsp32.Storage.Record

/-!
# The NVS partition

One namespace per record kind, one blob per record, and the free functions of `storage.rs` over
them.  A mutating primitive may succeed, fail, or be cut off by a power loss; which of these
happens is read off a script of `Fate`s carried by the state, and an empty script means that
every primitive succeeds.  A blob write and a blob removal are atomic, an erase of a namespace
that is interrupted leaves any subset of its records.  Reads succeed.

* `Platform`: what the store takes from outside the repository, with the laws it relies on;
* `FlashNamespaces`, `FlashM`, `mutate`;
* `setBlob`, `removeBlob`, `eraseNamespace`, `recordCount`, `recordNames`, `readBlob`.
-/

namespace WhatsappEsp32

open CrashLogic

/-- `serde_json` for one type.  Reading back what was written gives the value again. -/
structure Codec (α : Type) where
  toVec : α → Except String Bytes
  fromSlice : Bytes → Except String α
  fromSlice_toVec : ∀ a b, toVec a = .ok b → fromSlice b = .ok a

/-- What the store is built over: the board, the naming of records, the order in which NVS
iterates over the keys of a namespace, and the serialized types and the errors of the SDK. -/
structure Platform (Device SyncKey : Type) where
  hasPsram : Bool
  /-- Stands for `record_name`; collisions are allowed. -/
  recordName : Bytes → String
  recordName_noNul : ∀ k, '\x00' ∉ (recordName k).toList
  iterOrder : List String → List String
  iterOrder_perm : ∀ l, (iterOrder l).Perm l
  device : Codec Device
  syncKey : Codec SyncKey
  timestamp : SyncKey → ℤ
  /-- Stands for the `Display` of the `StoreError` of the SDK. -/
  errorText : StoreError → String

/-- The six kinds of records. -/
inductive Kind
  | identities
  | sessions
  | prekeys
  | signedPrekeys
  | senderKeys
  | syncKeys
  deriving DecidableEq, Repr

/-- The namespaces of the partition. -/
inductive Ns
  | control
  | device
  | records (kind : Kind)
  deriving DecidableEq, Repr

/-- The blobs of one namespace. -/
abbrev Namespace := Dict String Bytes

/-- What becomes of one mutating primitive.  `kept` says which records it has left as they were
when it fails or when the power goes. -/
inductive Fate
  | done
  | fails (error : String) (kept : String → Bool)
  | cut (kept : String → Bool)

/-- `SessionSlots`: validated names and logical keys of sessions, oldest first. -/
abbrev SessionSlots := List (String × Bytes)

namespace SessionSlots

/-- `SessionSlots::matches`. -/
def lookupMatches (slots : SessionSlots) (name : String) (key : Bytes) : Option Bool :=
  (slots.find? fun slot => slot.1 = name).map fun slot => decide (slot.2 = key)

/-- `remember`: the name moves to the back, and the oldest of eight makes room. -/
def remember (slots : SessionSlots) (name : String) (key : Bytes) : SessionSlots :=
  let slots := slots.eraseP fun slot => slot.1 = name
  let slots := if slots.length = 8 then slots.tail else slots
  slots ++ [(name, key)]

end SessionSlots

/-- `FlashNamespaces`, with the script of the primitives to come. -/
structure FlashNamespaces where
  namespaces : Ns → Namespace
  validatedSessions : SessionSlots
  fates : List Fate

/-- Programs on the flash. -/
abbrev FlashM := Prog FlashNamespaces StoreError

namespace FlashNamespaces

/-- Replace the content of one namespace. -/
def set (f : FlashNamespaces) (n : Ns) (content : Namespace) : FlashNamespaces :=
  { f with namespaces := Function.update f.namespaces n content }

/-- `validated_sessions.clear()`. -/
def clearSlots (f : FlashNamespaces) : FlashNamespaces := { f with validatedSessions := [] }

end FlashNamespaces

/-- `nvs_error`: what an error of the NVS is to the callers. -/
def nvsError (error : String) : StoreError := .io s!"ESP NVS error: {error}"

/-- One mutating primitive on the namespace `n`.  `after kept` is the content it leaves when it
has not got to the records in `kept`. -/
def mutate (n : Ns) (after : (String → Bool) → Namespace → Namespace) : FlashM Unit := fun f =>
  match f.fates with
  | [] => (.ok (), f.set n (after (fun _ => false) (f.namespaces n)))
  | .done :: fates =>
    (.ok (), { f.set n (after (fun _ => false) (f.namespaces n)) with fates := fates })
  | .fails error kept :: fates =>
    (.error (nvsError error), { f.set n (after kept (f.namespaces n)) with fates := fates })
  | .cut kept :: fates => (.halted, { f.set n (after kept (f.namespaces n)) with fates := fates })

/-- `nvs_set_blob` and the commit after it. -/
def nvsSetBlob (n : Ns) (name : String) (value : Bytes) : FlashM Unit :=
  mutate n fun kept content => if kept name then content else content.insert name value

/-- `remove` of a blob and the commit after it. -/
def nvsRemove (n : Ns) (name : String) : FlashM Unit :=
  mutate n fun kept content => if kept name then content else content.erase name

/-- `erase_all` of a namespace. -/
def nvsEraseAll (n : Ns) : FlashM Unit :=
  mutate n fun kept content => content.retain fun name _ => kept name

/-- The text of the `NulError` of a name with a NUL in it. -/
def nulErrorText (name : String) : String :=
  s!"nul byte found in provided data at position: {(asBytes name).idxOf 0}"

/-- `CString::new` rejects a name with a NUL in it. -/
def setBlob (n : Ns) (name : String) (value : Bytes) : FlashM Unit :=
  if '\x00' ∈ name.toList then
    .throw (.validation s!"invalid NVS record name: {nulErrorText name}")
  else
    nvsSetBlob n name value

/-- `remove_blob`: an entry that is not there is left alone. -/
def removeBlob (n : Ns) (name : String) : FlashM Unit := do
  let f ← Prog.get
  match (f.namespaces n).lookup name with
  | none => pure ()
  | some _ => nvsRemove n name

/-- `read_blob`: the bytes of an entry, at most `maxLen` of them. -/
def readBlob (n : Ns) (name : String) (maxLen : ℕ) : FlashM (Option Bytes) := do
  let f ← Prog.get
  match (f.namespaces n).lookup name with
  | none => pure none
  | some data =>
    if data.length > maxLen then
      .throw (.validation s!"NVS record '{name}' is too large: {data.length} bytes")
    else
      pure (some data)

/-- `record_count`: the entries of a namespace. -/
def recordCount (n : Ns) : FlashM ℕ := do
  let f ← Prog.get
  pure (f.namespaces n).size

section

variable {Device SyncKey : Type} (P : Platform Device SyncKey)

/-- `record_names`: their names, in the order of the iterator. -/
def recordNames (n : Ns) : FlashM (List String) := do
  let f ← Prog.get
  pure (P.iterOrder (f.namespaces n).keys)

/-- The attempts of `erase_namespace` that are left, with the last error seen. -/
def eraseAttempts (n : Ns) (label : String) : ℕ → Option String → FlashM Unit
  | 0, lastError =>
    let reason := lastError.getD "unknown error"
    .throw (.io s!"failed to erase NVS {label} namespace after 3 attempts: {reason}")
  | attempts + 1, _ => do
    match ← (nvsEraseAll n).attempt with
    | .ok () =>
      let names ← recordNames P n
      if names = [] then
        pure ()
      else
        eraseAttempts n label attempts
          (some s!"verification found {names.length} remaining records")
    | .error error => eraseAttempts n label attempts (some (P.errorText error))

/-- `erase_namespace`: three attempts. -/
def eraseNamespace (n : Ns) (label : String) : FlashM Unit := eraseAttempts P n label 3 none

end

end WhatsappEsp32
