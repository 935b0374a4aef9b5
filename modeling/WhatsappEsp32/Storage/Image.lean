import WhatsappEsp32.Storage.Flash

/-!
# What a partition holds

The abstract content of a partition (`Image`): the linked device, the marker of the latest sync
key, whether a reset is pending, and for each kind of records a plain map from logical keys to
values.  `DurableOk` is the invariant of every partition the store has written: each blob is a
record stored under the name of its own key, with a key and a value the boot replay accepts, and
no namespace is over its budget.  `FlashOk` adds that the cached session slots are genuine.
-/

namespace WhatsappEsp32

variable {Device SyncKey : Type} (P : Platform Device SyncKey)

/-! ### Single namespaces -/

/-- The value a namespace holds for a logical key. -/
def stored (content : Namespace) (k : Bytes) : Option Bytes :=
  match content.lookup (P.recordName k) with
  | none => none
  | some r =>
    match decodeRecord r with
    | .error _ => none
    | .ok (k', v) => if k' = k then some v else none

namespace Kind

/-- The cap of a namespace. -/
def maxEntries : Kind → ℕ
  | .identities => maxIdentities
  | .sessions => maxSessions
  | .prekeys => maxPrekeys
  | .signedPrekeys => maxSignedPrekeys
  | .senderKeys => maxSenderKeys
  | .syncKeys => maxSyncKeys

/-- The logical keys of a kind. -/
def KeyOk : Kind → Bytes → Prop
  | .identities, k => ∃ a, k = asBytes a
  | .sessions, k => ∃ a, k = asBytes a
  | .prekeys, k => ∃ id, k = u32ToLeBytes id
  | .signedPrekeys, k => ∃ id, k = u32ToLeBytes id
  | .senderKeys, k => ∃ a, k = asBytes a
  | .syncKeys, _ => True

/-- The values of a kind. -/
def ValueOk : Kind → Bytes → Prop
  | .identities, v => v.length = 32
  | .syncKeys, v => v.length ≤ maxSignalRecordLen ∧ ∃ key, P.syncKey.fromSlice v = .ok key
  | _, v => v.length ≤ maxSignalRecordLen

theorem ValueOk.length_le {kind : Kind} {v : Bytes} (h : kind.ValueOk P v) :
    v.length ≤ maxSignalRecordLen := by
  cases kind with
  | identities => exact le_of_eq_of_le h (by decide)
  | syncKeys => exact h.1
  | sessions => exact h
  | prekeys => exact h
  | signedPrekeys => exact h
  | senderKeys => exact h

end Kind

/-- `r`, stored under `name`, is a record of the given kind. -/
def RecordOk (kind : Kind) (name : String) (r : Bytes) : Prop :=
  ∃ k v, r = record k v ∧ name = P.recordName k ∧ k.length ≤ maxLogicalKeyLen ∧
    kind.KeyOk k ∧ kind.ValueOk P v

/-- The invariant of one namespace of records. -/
structure NamespaceOk (kind : Kind) (content : Namespace) : Prop where
  recordOk : ∀ name r, content.lookup name = some r → RecordOk P kind name r
  size_le : content.size ≤ kind.maxEntries

/-- The slot of `k` is empty or holds a record of `k`. -/
def OwnSlot (content : Namespace) (k : Bytes) : Prop :=
  content.lookup (P.recordName k) = none ∨
    ∃ v, content.lookup (P.recordName k) = some (record k v)

variable {P} {kind : Kind} {content : Namespace} {k k' v : Bytes}

theorem stored_of_lookup_none (h : content.lookup (P.recordName k) = none) :
    stored P content k = none := by
  rw [stored, h]

theorem stored_of_lookup_record (hk : k'.length ≤ maxLogicalKeyLen)
    (h : content.lookup (P.recordName k) = some (record k' v)) :
    stored P content k = if k' = k then some v else none := by
  simp only [stored, h, decodeRecord_record hk]

namespace NamespaceOk

/-- What the slot of a logical key can hold: nothing, a record of that key, or a record of another
key with the same name. -/
theorem slot_cases (h : NamespaceOk P kind content) (k : Bytes) :
    (content.lookup (P.recordName k) = none ∧ stored P content k = none) ∨
    (∃ v, content.lookup (P.recordName k) = some (record k v) ∧ k.length ≤ maxLogicalKeyLen ∧
      kind.KeyOk k ∧ kind.ValueOk P v ∧ stored P content k = some v) ∨
    (∃ k' v, content.lookup (P.recordName k) = some (record k' v) ∧ k' ≠ k ∧
      k'.length ≤ maxLogicalKeyLen ∧ kind.ValueOk P v ∧ stored P content k = none) := by
  cases hl : content.lookup (P.recordName k) with
  | none => exact Or.inl ⟨rfl, stored_of_lookup_none hl⟩
  | some r =>
    obtain ⟨k', v, rfl, -, hk, hkey, hv⟩ := h.recordOk _ _ hl
    by_cases hkk : k' = k
    · subst hkk
      exact Or.inr (Or.inl ⟨v, rfl, hk, hkey, hv, by
        rw [stored_of_lookup_record hk hl, if_pos rfl]⟩)
    · exact Or.inr (Or.inr ⟨k', v, rfl, hkk, hk, hv, by
        rw [stored_of_lookup_record hk hl, if_neg hkk]⟩)

theorem lookup_of_stored (h : NamespaceOk P kind content) (hs : stored P content k = some v) :
    content.lookup (P.recordName k) = some (record k v) ∧ k.length ≤ maxLogicalKeyLen ∧
      kind.KeyOk k ∧ kind.ValueOk P v := by
  rcases h.slot_cases k with ⟨-, hn⟩ | ⟨v', hl, hk, hkey, hv, hs'⟩ | ⟨k', v', -, -, -, -, hn⟩
  · rw [hn] at hs
    cases hs
  · rw [hs'] at hs
    cases hs
    exact ⟨hl, hk, hkey, hv⟩
  · rw [hn] at hs
    cases hs

protected theorem empty (kind : Kind) : NamespaceOk P kind ∅ where
  recordOk := by
    intro name r h
    simp at h
  size_le := Nat.zero_le _

protected theorem insert (h : NamespaceOk P kind content) (hk : k.length ≤ maxLogicalKeyLen)
    (hkey : kind.KeyOk k) (hv : kind.ValueOk P v)
    (hroom : (∃ r, content.lookup (P.recordName k) = some r) ∨ content.size < kind.maxEntries) :
    NamespaceOk P kind (content.insert (P.recordName k) (record k v)) where
  recordOk := by
    intro name r hl
    rw [AList.lookup_insert_eq] at hl
    split_ifs at hl with hn
    · cases hl
      exact ⟨k, v, rfl, hn, hk, hkey, hv⟩
    · exact h.recordOk name r hl
  size_le := by
    by_cases hm : P.recordName k ∈ content.keys
    · rw [AList.size_insert_of_mem hm]
      exact h.size_le
    · rw [AList.size_insert_of_notMem hm]
      rcases hroom with hr | hr
      · exact absurd (AList.mem_keys_iff_lookup.mpr hr) hm
      · exact hr

protected theorem erase (h : NamespaceOk P kind content) (name : String) :
    NamespaceOk P kind (content.erase name) where
  recordOk := by
    intro name' r hl
    rw [AList.lookup_erase_eq] at hl
    split_ifs at hl
    exact h.recordOk name' r hl
  size_le := (AList.size_erase_le content name).trans h.size_le

protected theorem retain (h : NamespaceOk P kind content) (p : String → Bytes → Bool) :
    NamespaceOk P kind (content.retain p) where
  recordOk := by
    intro name r hl
    rw [AList.lookup_retain] at hl
    exact h.recordOk name r (Option.filter_eq_some_iff.mp hl).1
  size_le := (AList.size_retain_le p content).trans h.size_le

/-- The names of a namespace are the names of the keys it stores. -/
theorem mem_keys_iff (h : NamespaceOk P kind content) {name : String} :
    name ∈ content.keys ↔ ∃ k v, name = P.recordName k ∧ stored P content k = some v := by
  rw [AList.mem_keys_iff_lookup]
  constructor
  · rintro ⟨r, hl⟩
    obtain ⟨k, v, rfl, rfl, hk, -, -⟩ := h.recordOk name r hl
    exact ⟨k, v, rfl, by rw [stored_of_lookup_record hk hl, if_pos rfl]⟩
  · rintro ⟨k, v, rfl, hs⟩
    exact ⟨_, (h.lookup_of_stored hs).1⟩

theorem keys_eq_nil_iff (h : NamespaceOk P kind content) :
    content.keys = [] ↔ ∀ k, stored P content k = none := by
  rw [List.eq_nil_iff_forall_not_mem]
  constructor
  · intro hnil k
    cases hs : stored P content k with
    | none => rfl
    | some v => exact absurd (h.mem_keys_iff.mpr ⟨k, v, rfl, hs⟩) (hnil _)
  · intro hnone name hmem
    obtain ⟨k, v, -, hs⟩ := h.mem_keys_iff.mp hmem
    rw [hnone k] at hs
    cases hs

end NamespaceOk

/-- Writing into the slot of `k` changes the stored value of `k` only. -/
theorem stored_insert (hk : k.length ≤ maxLogicalKeyLen) (hslot : OwnSlot P content k) (v : Bytes) :
    stored P (content.insert (P.recordName k) (record k v)) =
      Function.update (stored P content) k (some v) := by
  funext k'
  by_cases hkk : k' = k
  · subst hkk
    rw [Function.update_self,
      stored_of_lookup_record hk (AList.lookup_insert content), if_pos rfl]
  · rw [Function.update_of_ne hkk]
    by_cases hn : P.recordName k' = P.recordName k
    · have hnew : (content.insert (P.recordName k) (record k v)).lookup (P.recordName k') =
          some (record k v) := by
        rw [AList.lookup_insert_eq, if_pos hn]
      rw [stored_of_lookup_record hk hnew, if_neg (Ne.symm hkk)]
      rcases hslot with hl | ⟨v', hl⟩ <;> rw [← hn] at hl
      · exact (stored_of_lookup_none hl).symm
      · rw [stored_of_lookup_record hk hl, if_neg (Ne.symm hkk)]
    · simp only [stored, AList.lookup_insert_eq, if_neg hn]

/-- Removing the blob in the slot of `k` removes the stored value of `k` only. -/
theorem stored_erase (hk : k.length ≤ maxLogicalKeyLen) (hslot : OwnSlot P content k) :
    stored P (content.erase (P.recordName k)) = Function.update (stored P content) k none := by
  funext k'
  by_cases hn : P.recordName k' = P.recordName k
  · have hnew : (content.erase (P.recordName k)).lookup (P.recordName k') = none := by
      rw [AList.lookup_erase_eq, if_pos hn]
    rw [stored_of_lookup_none hnew]
    by_cases hkk : k' = k
    · subst hkk
      rw [Function.update_self]
    · rw [Function.update_of_ne hkk]
      rcases hslot with hl | ⟨v', hl⟩ <;> rw [← hn] at hl
      · exact (stored_of_lookup_none hl).symm
      · rw [stored_of_lookup_record hk hl, if_neg (Ne.symm hkk)]
  · have hkk : k' ≠ k := fun h => hn (by rw [h])
    rw [Function.update_of_ne hkk]
    simp only [stored, AList.lookup_erase_eq, if_neg hn]

theorem stored_empty : stored P ∅ = fun _ => none := by
  funext k
  exact stored_of_lookup_none (AList.lookup_empty _)

/-! ### The whole partition -/

/-- The abstract content of a partition. -/
@[ext]
structure Image (Device : Type) where
  device : Option Device
  latestSync : Option Bytes
  resetPending : Bool
  records : Kind → Bytes → Option Bytes

namespace Image

variable (m : Image Device)

/-- Store one record. -/
def put (kind : Kind) (k v : Bytes) : Image Device :=
  { m with records := Function.update m.records kind (Function.update (m.records kind) k (some v)) }

/-- Delete one record. -/
def delete (kind : Kind) (k : Bytes) : Image Device :=
  { m with records := Function.update m.records kind (Function.update (m.records kind) k none) }

/-- Delete all records of a kind. -/
def clear (kind : Kind) : Image Device :=
  { m with records := Function.update m.records kind fun _ => none }

/-- The content of a fresh partition. -/
def blank : Image Device := ⟨none, none, false, fun _ _ => none⟩

end Image

variable (P)

/-- The device record, if it can be read. -/
def storedDevice (content : Namespace) : Option Device :=
  match content.lookup "current" with
  | none => none
  | some r =>
    match decodeRecord r with
    | .error _ => none
    | .ok (_, payload) => (P.device.fromSlice payload).toOption

/-- The id the marker names, if it can be read. -/
def storedLatest (content : Namespace) : Option Bytes :=
  match content.lookup "latestsync" with
  | none => none
  | some r =>
    match decodeRecord r with
    | .error _ => none
    | .ok (_, id) => some id

/-- The abstract content of the namespaces of a partition. -/
def image (namespaces : Ns → Namespace) : Image Device where
  device := storedDevice P (namespaces .device)
  latestSync := storedLatest (namespaces .control)
  resetPending := ((namespaces .control).lookup "reset").isSome
  records kind := stored P (namespaces (.records kind))

/-- The invariant of the device namespace. -/
def DeviceOk (content : Namespace) : Prop :=
  ∀ r, content.lookup "current" = some r → ∃ payload device,
    r = record (asBytes "device") payload ∧ payload.length ≤ maxDeviceLen ∧
      P.device.fromSlice payload = .ok device

/-- The invariant of the control namespace. -/
structure ControlOk (content : Namespace) : Prop where
  latest : ∀ r, content.lookup "latestsync" = some r → ∃ id,
    r = record (asBytes "latestsync") id ∧ id.length ≤ maxLogicalKeyLen
  reset : ∀ r, content.lookup "reset" = some r → r.length ≤ 1

/-- The invariant of a partition written by the store. -/
structure DurableOk (namespaces : Ns → Namespace) : Prop where
  kinds : ∀ kind, NamespaceOk P kind (namespaces (.records kind))
  device : DeviceOk P (namespaces .device)
  control : ControlOk (namespaces .control)

/-- Every cached slot names an existing session record of the cached key. -/
def SlotsOk (slots : SessionSlots) (sessions : Namespace) : Prop :=
  ∀ slot ∈ slots, slot.1 = P.recordName slot.2 ∧ slot.2.length ≤ maxLogicalKeyLen ∧
    ∃ v, sessions.lookup slot.1 = some (record slot.2 v)

/-- The invariant of the flash state of a running store. -/
structure FlashOk (f : FlashNamespaces) : Prop where
  durable : DurableOk P f.namespaces
  slots : SlotsOk P f.validatedSessions (f.namespaces (.records .sessions))

/-- A fresh partition. -/
def emptyPartition : Ns → Namespace := fun _ => ∅

theorem durableOk_emptyPartition : DurableOk P emptyPartition where
  kinds kind := .empty kind
  device := by
    intro r h
    simp [emptyPartition] at h
  control := ⟨by simp [emptyPartition], by simp [emptyPartition]⟩

theorem image_emptyPartition : image P emptyPartition = Image.blank := by
  ext1
  · rfl
  · rfl
  · rfl
  · funext kind
    exact stored_empty (P := P)

end WhatsappEsp32
