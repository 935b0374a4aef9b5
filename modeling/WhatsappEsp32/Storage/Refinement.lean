import WhatsappEsp32.Storage.StoreSpec

/-!
# The store as plain maps

`Maps` is what the store is for: one map per persisted kind, and the id of the latest sync key.
`Call` lists the operations of the store and `Maps.Step` what each of them means for the maps:
a lookup answers from its map, a successful write changes one entry, a refused write changes
nothing, and a batch that is refused has stored the entries before the refused one.

The main result, `execAll_refines`, is that every sequence of calls on a fresh store, reboots
included, is answered as the maps would answer it, with and without PSRAM and for any naming of
the records.
-/

namespace WhatsappEsp32

open CrashLogic NvsStore

/-- The persisted data of the store. -/
@[ext]
structure Maps (Device SyncKey : Type) where
  device : Option Device
  identities : String → Option IdentityKey
  sessions : String → Option Bytes
  prekeys : UInt32 → Option Bytes
  signedPrekeys : UInt32 → Option Bytes
  senderKeys : String → Option Bytes
  syncKeys : Bytes → Option SyncKey
  latestSyncKeyId : Option Bytes

/-- The calls of the store, each with the type of its result. -/
inductive Call (Device SyncKey : Type) : Type → Type 1
  | putIdentity (address : String) (key : IdentityKey) : Call Device SyncKey Unit
  | putIdentitiesBatch (entries : List (String × IdentityKey)) : Call Device SyncKey Unit
  | loadIdentity (address : String) : Call Device SyncKey (Option IdentityKey)
  | deleteIdentity (address : String) : Call Device SyncKey Unit
  | putSession (address : String) (session : Bytes) : Call Device SyncKey Unit
  | putSessionsBatch (entries : List (String × Bytes)) : Call Device SyncKey Unit
  | getSession (address : String) : Call Device SyncKey (Option Bytes)
  | deleteSession (address : String) : Call Device SyncKey Unit
  | hasSignalStateForUser (user : String) : Call Device SyncKey Bool
  | storePrekey (id : UInt32) (record : Bytes) : Call Device SyncKey Unit
  | loadPrekey (id : UInt32) : Call Device SyncKey (Option Bytes)
  | removePrekey (id : UInt32) : Call Device SyncKey Unit
  | storeSignedPrekey (id : UInt32) (record : Bytes) : Call Device SyncKey Unit
  | loadSignedPrekey (id : UInt32) : Call Device SyncKey (Option Bytes)
  | removeSignedPrekey (id : UInt32) : Call Device SyncKey Unit
  | putSenderKey (address : String) (record : Bytes) : Call Device SyncKey Unit
  | getSenderKey (address : String) : Call Device SyncKey (Option Bytes)
  | deleteSenderKey (address : String) : Call Device SyncKey Unit
  | setSyncKey (keyId : Bytes) (key : SyncKey) : Call Device SyncKey Unit
  | getSyncKey (keyId : Bytes) : Call Device SyncKey (Option SyncKey)
  | getLatestSyncKeyId : Call Device SyncKey (Option Bytes)
  | save (device : Device) : Call Device SyncKey Unit
  | listSessions : Call Device SyncKey (List String)
  | clearSessions : Call Device SyncKey ℕ
  | reset : Call Device SyncKey Unit
  | sealWrites : Call Device SyncKey Unit
  | reboot : Call Device SyncKey Unit

/-- The call ends the running store. -/
def Call.isReboot {Device SyncKey α : Type} : Call Device SyncKey α → Bool
  | .reboot => true
  | _ => false

variable {Device SyncKey α : Type}

/-! ### The abstract store -/

namespace Maps

protected def empty : Maps Device SyncKey :=
  ⟨none, fun _ => none, fun _ => none, fun _ => none, fun _ => none, fun _ => none, fun _ => none,
    none⟩

variable (a : Maps Device SyncKey)

/-- The identities of a batch, one after the other. -/
def putIdentities (entries : List (String × IdentityKey)) : Maps Device SyncKey :=
  { a with identities := entries.foldl (fun st e => Function.update st e.1 (some e.2)) a.identities }

/-- The sessions of a batch, one after the other. -/
def putSessions (entries : List (String × Bytes)) : Maps Device SyncKey :=
  { a with sessions := entries.foldl (fun st e => Function.update st e.1 (some e.2)) a.sessions }

/-- A write ends with the new maps, or it is refused and changes nothing. -/
def Writes (new : Maps Device SyncKey) (r : Outcome StoreError Unit) (a' : Maps Device SyncKey) :
    Prop :=
  r.Meets (fun _ => a' = new) (fun _ => a' = a) False

/-- A lookup is answered as `Q` says and changes nothing. -/
def Reads (Q : α → Prop) (r : Outcome StoreError α) (a' : Maps Device SyncKey) : Prop :=
  r.Meets (fun answer => Q answer ∧ a' = a) (fun _ => False) False

/-- A batch that is refused has stored the entries before the refused one. -/
def WritesBatch {β : Type} (entries : List β) (new : List β → Maps Device SyncKey)
    (r : Outcome StoreError Unit) (a' : Maps Device SyncKey) : Prop :=
  r.Meets (fun _ => a' = new entries) (fun _ => ∃ n < entries.length, a' = new (entries.take n))
    False

/-- What a call may answer, and the maps after it. -/
def Step : {α : Type} → Call Device SyncKey α → Outcome StoreError α → Maps Device SyncKey → Prop
  | _, .putIdentity address key => a.Writes
      { a with identities := Function.update a.identities address (some key) }
  | _, .putIdentitiesBatch entries => WritesBatch entries a.putIdentities
  | _, .loadIdentity address => a.Reads fun answer => answer = a.identities address
  | _, .deleteIdentity address => a.Writes
      { a with identities := Function.update a.identities address none }
  | _, .putSession address session => a.Writes
      { a with sessions := Function.update a.sessions address (some session) }
  | _, .putSessionsBatch entries => WritesBatch entries a.putSessions
  | _, .getSession address => a.Reads fun answer => answer = a.sessions address
  | _, .deleteSession address => a.Writes
      { a with sessions := Function.update a.sessions address none }
  | _, .hasSignalStateForUser user => a.Reads fun answer => answer = true ↔
      ∃ address, AddressOf user address ∧
        (a.sessions address ≠ none ∨ a.identities address ≠ none)
  | _, .storePrekey id record => a.Writes
      { a with prekeys := Function.update a.prekeys id (some record) }
  | _, .loadPrekey id => a.Reads fun answer => answer = a.prekeys id
  | _, .removePrekey id => a.Writes { a with prekeys := Function.update a.prekeys id none }
  | _, .storeSignedPrekey id record => a.Writes
      { a with signedPrekeys := Function.update a.signedPrekeys id (some record) }
  | _, .loadSignedPrekey id => a.Reads fun answer => answer = a.signedPrekeys id
  | _, .removeSignedPrekey id => a.Writes
      { a with signedPrekeys := Function.update a.signedPrekeys id none }
  | _, .putSenderKey address record => a.Writes
      { a with senderKeys := Function.update a.senderKeys address (some record) }
  | _, .getSenderKey address => a.Reads fun answer => answer = a.senderKeys address
  | _, .deleteSenderKey address => a.Writes
      { a with senderKeys := Function.update a.senderKeys address none }
  | _, .setSyncKey keyId key => a.Writes
      { a with
        syncKeys := Function.update a.syncKeys keyId (some key)
        latestSyncKeyId := some keyId }
  | _, .getSyncKey keyId => a.Reads fun answer => answer = a.syncKeys keyId
  | _, .getLatestSyncKeyId => a.Reads fun answer => answer = a.latestSyncKeyId
  | _, .save device => a.Writes { a with device := some device }
  | _, .listSessions => a.Reads fun answer => answer.Nodup ∧
      ∀ address, address ∈ answer ↔ a.sessions address ≠ none
  | _, .clearSessions => fun r a' =>
      r.Meets (fun _ => a' = { a with sessions := fun _ => none }) (fun _ => False) False
  | _, .reset => fun r a' => r.Meets (fun _ => a' = .empty) (fun _ => False) False
  | _, .sealWrites => fun r a' => r.Meets (fun _ => a' = a) (fun _ => False) False
  -- records that no device owns are discarded at the next boot
  | _, .reboot => fun r a' =>
      r.Meets (fun _ => a' = if a.device.isSome then a else .empty) (fun _ => False) False

/-- A sequence of calls with their answers. -/
inductive Run : Maps Device SyncKey →
    List ((α : Type) × Call Device SyncKey α × Outcome StoreError α) → Maps Device SyncKey → Prop
  | nil (a : Maps Device SyncKey) : Run a [] a
  | cons {a a' a'' : Maps Device SyncKey} {α : Type} {call : Call Device SyncKey α}
      {r : Outcome StoreError α} {rest} (hstep : a.Step call r a') (hrest : Run a' rest a'') :
      Run a (⟨α, call, r⟩ :: rest) a''

end Maps

/-! ### Running the store -/

variable (P : Platform Device SyncKey)

/-- The operation of the store behind a call. -/
def exec : {α : Type} → Call Device SyncKey α → StoreM Device SyncKey α
  | _, .putIdentity address key => putIdentity P address key
  | _, .putIdentitiesBatch entries => putIdentitiesBatch P entries
  | _, .loadIdentity address => loadIdentity P address
  | _, .deleteIdentity address => deleteIdentity P address
  | _, .putSession address session => putSession P address session
  | _, .putSessionsBatch entries => putSessionsBatch P entries
  | _, .getSession address => getSession P address
  | _, .deleteSession address => deleteSession P address
  | _, .hasSignalStateForUser user => hasSignalStateForUser P user
  | _, .storePrekey id record => storePrekey P id record
  | _, .loadPrekey id => loadPrekey id
  | _, .removePrekey id => removePrekey P id
  | _, .storeSignedPrekey id record => storeSignedPrekey P id record
  | _, .loadSignedPrekey id => loadSignedPrekey id
  | _, .removeSignedPrekey id => removeSignedPrekey P id
  | _, .putSenderKey address record => putSenderKey P address record
  | _, .getSenderKey address => getSenderKey address
  | _, .deleteSenderKey address => deleteSenderKey P address
  | _, .setSyncKey keyId key => setSyncKey P keyId key
  | _, .getSyncKey keyId => getSyncKey P keyId
  | _, .getLatestSyncKeyId => getLatestSyncKeyId
  | _, .save device => save P device
  | _, .listSessions => listSessions P
  | _, .clearSessions => clearSessions P
  | _, .reset => reset P
  | _, .sealWrites => sealWrites
  | _, .reboot => reboot P

/-- The store that `open` gives on an empty partition. -/
def NvsStore.fresh : NvsStore Device SyncKey :=
  (reboot P ⟨{}, ⟨emptyPartition, [], []⟩, true⟩).2

/-- A sequence of calls, with the answers of the store. -/
def execAll : List ((α : Type) × Call Device SyncKey α) → NvsStore Device SyncKey →
    List ((α : Type) × Call Device SyncKey α × Outcome StoreError α)
  | [], _ => []
  | ⟨α, call⟩ :: calls, s => ⟨α, call, (exec P call s).1⟩ :: execAll calls (exec P call s).2

/-! ### The refinement -/

variable {P} {m m' : Image Device} {latest latest' : Option Bytes} {accepting accepting' : Bool}

variable (P) in
/-- The maps a partition holds. -/
def Image.maps (m : Image Device) (latest : Option Bytes) : Maps Device SyncKey where
  device := m.device
  identities := m.identity
  sessions := m.session
  prekeys := m.prekey
  signedPrekeys := m.signedPrekey
  senderKeys := m.senderKey
  syncKeys := m.syncKey P
  latestSyncKeyId := latest

/-- Between two calls no reset is pending, and the marker names the latest key, which is there. -/
structure Settled (m : Image Device) (latest : Option Bytes) : Prop where
  resetPending : m.resetPending = false
  latestSync : m.latestSync = latest
  present : ∀ id, latest = some id → (m.records .syncKeys id).isSome
  none_of : latest = none → ∀ k, m.records .syncKeys k = none

variable (P) in
/-- The store `s` holds the maps `a`. -/
def Refines (s : NvsStore Device SyncKey) (a : Maps Device SyncKey) : Prop :=
  ∃ m latest accepting, Held P .calm m latest accepting s ∧ Settled m latest ∧ a = m.maps P latest

theorem Held.refines {s : NvsStore Device SyncKey} (h : Held P .calm m latest accepting s)
    (hm : Settled m latest) : Refines P s (m.maps P latest) := ⟨m, latest, accepting, h, hm, rfl⟩

theorem Refused.calm {s : NvsStore Device SyncKey} (h : Refused P .calm m latest accepting s) :
    Held P .calm m latest accepting s := h.resolve_right fun hb => hb.1

theorem Settled.congr (h : Settled m latest) (hp : m'.resetPending = m.resetPending)
    (hl : m'.latestSync = m.latestSync) (hr : m'.records .syncKeys = m.records .syncKeys) :
    Settled m' latest where
  resetPending := hp.trans h.resetPending
  latestSync := hl.trans h.latestSync
  present := by
    rw [hr]
    exact h.present
  none_of := by
    rw [hr]
    exact h.none_of

/-- A write on a calm day: the new maps, or a refusal that changes nothing. -/
theorem writes_of_spec {op : StoreM Device SyncKey Unit} {new : Maps Device SyncKey}
    {s : NvsStore Device SyncKey} (hs : Held P .calm m latest accepting s) (hm : Settled m latest)
    (h : Triple (Held P .calm m latest accepting) op (fun _ s' => Refines P s' new)
      (fun _ => Refused P .calm m latest accepting) (Lost P .calm)) :
    ∃ a', (m.maps P latest).Writes new (op s).1 a' ∧ Refines P (op s).2 a' := by
  have hop := h s hs
  generalize op s = r at hop
  rcases r with ⟨⟨⟩ | e | _, s'⟩
  · exact ⟨new, rfl, hop⟩
  · exact ⟨_, rfl, hop.calm.refines hm⟩
  · exact hop.1.elim

theorem reads_of_spec {op : StoreM Device SyncKey α} {Q : α → Prop}
    {s : NvsStore Device SyncKey} (hs : Held P .calm m latest accepting s) (hm : Settled m latest)
    (h : Triple (Held P .calm m latest accepting) op
      (fun r s' => Held P .calm m latest accepting s' ∧ Q r) (fun _ _ => False)
      (fun _ => False)) :
    ∃ a', (m.maps P latest).Reads Q (op s).1 a' ∧ Refines P (op s).2 a' := by
  have hop := h s hs
  generalize op s = r at hop
  rcases r with ⟨answer | e | _, s'⟩
  · exact ⟨_, ⟨hop.2, rfl⟩, hop.1.refines hm⟩
  · exact hop.elim
  · exact hop.elim

theorem batch_of_spec {β : Type} {op : StoreM Device SyncKey Unit} {entries : List β}
    {content : List β → Image Device} {new : List β → Maps Device SyncKey}
    {s : NvsStore Device SyncKey} (hs : Held P .calm m latest accepting s)
    (hm : ∀ es, Settled (content es) latest) (hnew : ∀ es, (content es).maps P latest = new es)
    (h : Triple (Held P .calm m latest accepting) op
      (fun _ => Held P .calm (content entries) latest accepting)
      (fun _ => BatchRefused P .calm entries content latest accepting) (Lost P .calm)) :
    ∃ a', Maps.WritesBatch entries new (op s).1 a' ∧ Refines P (op s).2 a' := by
  have hop := h s hs
  generalize op s = r at hop
  rcases r with ⟨⟨⟩ | e | _, s'⟩
  · exact ⟨new entries, rfl, by rw [← hnew]; exact hop.refines (hm _)⟩
  · obtain ⟨n, hn, hheld⟩ := hop.resolve_right fun hb => hb.1
    exact ⟨new (entries.take n), ⟨n, hn, rfl⟩, by rw [← hnew]; exact hheld.refines (hm _)⟩
  · exact hop.1.elim

/-- An operation that cannot be refused. -/
theorem done_of_spec {op : StoreM Device SyncKey α} {new : Maps Device SyncKey}
    {s : NvsStore Device SyncKey} (hs : Held P .calm m latest accepting s)
    (h : Triple (Held P .calm m latest accepting) op (fun _ s' => Refines P s' new)
      (fun _ s' => Broken P .calm False s'.flash) (Lost P .calm)) :
    ∃ a', (op s).1.Meets (fun _ => a' = new) (fun _ => False) False ∧ Refines P (op s).2 a' := by
  have hop := h s hs
  generalize op s = r at hop
  rcases r with ⟨answer | e | _, s'⟩
  · exact ⟨new, rfl, hop⟩
  · exact hop.1.elim
  · exact hop.1.elim

theorem maps_putIdentities (entries : List (String × IdentityKey)) :
    (m.putIdentities entries).maps P latest = (m.maps P latest).putIdentities entries := by
  induction entries generalizing m with
  | nil => rfl
  | cons e entries ih =>
    change ((m.put .identities (asBytes e.1) e.2.1).putIdentities entries).maps P latest = _
    rw [ih]
    simp only [Maps.putIdentities, Image.maps, Image.identity_put, List.foldl_cons]
    rfl

theorem maps_putSessions (entries : List (String × Bytes)) :
    (m.putSessions entries).maps P latest = (m.maps P latest).putSessions entries := by
  induction entries generalizing m with
  | nil => rfl
  | cons e entries ih =>
    change ((m.put .sessions (asBytes e.1) e.2).putSessions entries).maps P latest = _
    rw [ih]
    simp only [Maps.putSessions, Image.maps, Image.session_put, List.foldl_cons]
    rfl

theorem Settled.put (h : Settled m latest) {kind : Kind} (hkind : kind ≠ .syncKeys)
    (k v : Bytes) : Settled (m.put kind k v) latest :=
  h.congr rfl rfl (Function.update_of_ne hkind.symm _ _)

theorem Settled.delete (h : Settled m latest) {kind : Kind} (hkind : kind ≠ .syncKeys)
    (k : Bytes) : Settled (m.delete kind k) latest :=
  h.congr rfl rfl (Function.update_of_ne hkind.symm _ _)

theorem Settled.putIdentities (h : Settled m latest) (entries : List (String × IdentityKey)) :
    Settled (m.putIdentities entries) latest := by
  induction entries generalizing m with
  | nil => exact h
  | cons e entries ih => exact ih (h.put (by decide) _ _)

theorem Settled.putSessions (h : Settled m latest) (entries : List (String × Bytes)) :
    Settled (m.putSessions entries) latest := by
  induction entries generalizing m with
  | nil => exact h
  | cons e entries ih => exact ih (h.put (by decide) _ _)

theorem Settled.put_syncKey (h : Settled m latest) (keyId v : Bytes) :
    Settled { m.put .syncKeys keyId v with latestSync := some keyId } (some keyId) where
  resetPending := h.resetPending
  latestSync := rfl
  present := by
    rintro id ⟨⟩
    simp
  none_of := by simp

theorem settled_blank : Settled (Image.blank : Image Device) none :=
  ⟨rfl, rfl, by simp, fun _ _ => rfl⟩

theorem put_refines {op : StoreM Device SyncKey Unit} {new : Maps Device SyncKey}
    {s : NvsStore Device SyncKey} {kind : Kind} {k v : Bytes}
    (hs : Held P .calm m latest accepting s) (hm : Settled m latest) (hkind : kind ≠ .syncKeys)
    (h : Triple (Held P .calm m latest accepting) op
      (fun _ => Held P .calm (m.put kind k v) latest accepting)
      (fun _ => Refused P .calm m latest accepting) (Lost P .calm))
    (hmaps : (m.put kind k v).maps P latest = new) :
    ∃ a', (m.maps P latest).Writes new (op s).1 a' ∧ Refines P (op s).2 a' :=
  writes_of_spec hs hm (h.weaken (fun _ => id)
    (fun _ _ hs' => hmaps ▸ hs'.refines (hm.put hkind k v)) (fun _ _ => id) (fun _ => id))

theorem delete_refines {op : StoreM Device SyncKey Unit} {new : Maps Device SyncKey}
    {s : NvsStore Device SyncKey} {kind : Kind} {k : Bytes}
    (hs : Held P .calm m latest accepting s) (hm : Settled m latest) (hkind : kind ≠ .syncKeys)
    (h : Triple (Held P .calm m latest accepting) op
      (fun _ => Held P .calm (m.delete kind k) latest accepting)
      (fun _ => Refused P .calm m latest accepting) (Lost P .calm))
    (hmaps : (m.delete kind k).maps P latest = new) :
    ∃ a', (m.maps P latest).Writes new (op s).1 a' ∧ Refines P (op s).2 a' :=
  writes_of_spec hs hm (h.weaken (fun _ => id)
    (fun _ _ hs' => hmaps ▸ hs'.refines (hm.delete hkind k)) (fun _ _ => id) (fun _ => id))

theorem setSyncKey_refines {s : NvsStore Device SyncKey} (hs : Held P .calm m latest accepting s)
    (hm : Settled m latest) (keyId : Bytes) (key : SyncKey) :
    ∃ a', (m.maps P latest).Step (.setSyncKey keyId key) (setSyncKey P keyId key s).1 a' ∧
      Refines P (setSyncKey P keyId key s).2 a' := by
  refine writes_of_spec hs hm ((setSyncKey_spec keyId key).weaken (fun _ => id) ?_ (fun _ _ => id)
    (fun _ => id))
  rintro _ s' ⟨payload, hdec, hs'⟩
  have hr := hs'.refines (hm.put_syncKey keyId payload)
  have hmaps : ({ m.put .syncKeys keyId payload with latestSync := some keyId } :
      Image Device).maps P (some keyId) = { m.maps P latest with
        syncKeys := Function.update (m.syncKey P) keyId (some key)
        latestSyncKeyId := some keyId } := by
    rw [← Image.syncKey_put keyId hdec]
    rfl
  rwa [hmaps] at hr

/-- Nothing is left of a store without a device after a boot. -/
theorem Settled.booted_eq_blank (hm : Settled m latest) (hdev : m.device = none) :
    m.booted = Image.blank := by
  obtain ⟨-, hrec⟩ := Image.booted_of_device_none hm.resetPending hdev
  have hrecords : m.booted.records = fun _ _ => none := funext fun kind => funext (hrec kind)
  unfold Image.booted at hrecords ⊢
  rw [if_neg (by simp [hm.resetPending])] at hrecords ⊢
  split_ifs at hrecords ⊢ with h
  · ext1
    · exact hdev
    · rfl
    · exact hm.resetPending
    · rfl
  · have hlatest : latest = none := by
      cases hl : latest with
      | none => rfl
      | some id =>
        have hid := hm.present id hl
        rw [hrecords] at hid
        cases hid
    ext1
    · exact hdev
    · exact hm.latestSync.trans hlatest
    · exact hm.resetPending
    · exact hrecords

/-- The marker is trusted at a boot, so the latest key survives it. -/
theorem reboot_refines {s : NvsStore Device SyncKey} (hs : Shows P .calm m s.flash)
    (hm : Settled m latest) :
    ∃ a', (m.maps P latest).Step .reboot (reboot P s).1 a' ∧ Refines P (reboot P s).2 a' := by
  have hop := reboot_spec s hs
  generalize reboot P s = r at hop
  rcases r with ⟨⟨⟩ | e | _, s'⟩
  · obtain ⟨latest', hs', hlatest⟩ := hop
    cases hdev : m.device with
    | some device =>
      rw [Image.booted_of_device hm.resetPending hdev] at hs' hlatest
      have heq : latest' = latest := by
        cases hl : latest with
        | none => exact hlatest.none_iff.mpr (hm.none_of hl)
        | some id => exact hlatest.recorded id (hm.latestSync.trans hl) (hm.present id hl)
      subst heq
      refine ⟨m.maps P latest', ?_, hs'.refines hm⟩
      exact (if_pos (by simp [Image.maps, hdev])).symm
    | none =>
      rw [hm.booted_eq_blank hdev] at hs' hlatest
      have heq : latest' = none := hlatest.none_iff.mpr fun _ => rfl
      subst heq
      refine ⟨.empty, ?_, hs'.refines settled_blank⟩
      exact (if_neg (by simp [Image.maps, hdev])).symm
  · exact hop.1.elim
  · exact hop.1.elim

/-- One call: whatever it answers, the maps would answer it too. -/
theorem exec_refines {s : NvsStore Device SyncKey} {a : Maps Device SyncKey} (h : Refines P s a)
    (call : Call Device SyncKey α) :
    ∃ a', a.Step call (exec P call s).1 a' ∧ Refines P (exec P call s).2 a' := by
  obtain ⟨m, latest, accepting, hs, hm, rfl⟩ := h
  cases call with
  | putIdentity address key =>
    refine put_refines hs hm (by decide) (putIdentity_spec address key) ?_
    rw [Image.maps, Image.identity_put]
    rfl
  | putIdentitiesBatch entries =>
    -- a batch may stop half-way, at any of its entries
    exact batch_of_spec hs hm.putIdentities maps_putIdentities (putIdentitiesBatch_spec entries)
  | loadIdentity address => exact reads_of_spec hs hm (loadIdentity_spec address)
  | deleteIdentity address =>
    refine delete_refines hs hm (by decide) (deleteIdentity_spec address) ?_
    rw [Image.maps, Image.identity_delete]
    rfl
  | putSession address session =>
    refine put_refines hs hm (by decide) (putSession_spec address session) ?_
    rw [Image.maps, Image.session_put]
    rfl
  | putSessionsBatch entries =>
    exact batch_of_spec hs hm.putSessions maps_putSessions (putSessionsBatch_spec entries)
  | getSession address => exact reads_of_spec hs hm (getSession_spec address)
  | deleteSession address =>
    refine delete_refines hs hm (by decide) (deleteSession_spec address) ?_
    rw [Image.maps, Image.session_delete]
    rfl
  | hasSignalStateForUser user => exact reads_of_spec hs hm (hasSignalStateForUser_spec user)
  | storePrekey id record =>
    refine put_refines hs hm (by decide) (storePrekey_spec id record) ?_
    rw [Image.maps, Image.prekey_put]
    rfl
  | loadPrekey id =>
    exact reads_of_spec hs hm (withInner_spec fun _ h => h.ram.coherent.prekeys.lookup_eq id)
  | removePrekey id =>
    refine delete_refines hs hm (by decide) (removePrekey_spec id) ?_
    rw [Image.maps, Image.prekey_delete]
    rfl
  | storeSignedPrekey id record =>
    refine put_refines hs hm (by decide) (storeSignedPrekey_spec id record) ?_
    rw [Image.maps, Image.signedPrekey_put]
    rfl
  | loadSignedPrekey id =>
    exact reads_of_spec hs hm (withInner_spec fun _ h => h.ram.coherent.signedPrekeys.lookup_eq id)
  | removeSignedPrekey id =>
    refine delete_refines hs hm (by decide) (removeSignedPrekey_spec id) ?_
    rw [Image.maps, Image.signedPrekey_delete]
    rfl
  | putSenderKey address record =>
    refine put_refines hs hm (by decide) (putSenderKey_spec address record) ?_
    rw [Image.maps, Image.senderKey_put]
    rfl
  | getSenderKey address =>
    exact reads_of_spec hs hm (withInner_spec fun _ h => h.ram.coherent.senderKeys.lookup_eq address)
  | deleteSenderKey address =>
    refine delete_refines hs hm (by decide) (deleteSenderKey_spec address) ?_
    rw [Image.maps, Image.senderKey_delete]
    rfl
  | setSyncKey keyId key => exact setSyncKey_refines hs hm keyId key
  | getSyncKey keyId => exact reads_of_spec hs hm (getSyncKey_spec keyId)
  | getLatestSyncKeyId => exact reads_of_spec hs hm (withInner_spec fun _ h => h.ram.latest_eq)
  | save device =>
    refine writes_of_spec hs hm ((save_spec device).weaken (fun _ => id) ?_ (fun _ _ => id)
      (fun _ => id))
    exact fun _ _ hs' => hs'.refines (hm.congr rfl rfl rfl)
  | listSessions => exact reads_of_spec hs hm listSessions_spec
  | clearSessions =>
    refine done_of_spec hs (clearSessions_spec.weaken (fun _ => id) ?_ (fun _ _ => id)
      (fun _ => id))
    exact fun _ _ hs' => hs'.refines (hm.congr rfl rfl rfl)
  | reset =>
    refine done_of_spec hs (reset_spec.weaken (fun _ => id) ?_ (fun _ _ => id) (fun _ => id))
    -- whatever was there is gone, and so are the tables in memory
    exact fun _ _ hs' => hs'.refines settled_blank
  | sealWrites =>
    refine done_of_spec hs (sealWrites_spec.weaken (fun _ => id) ?_ (fun _ _ => False.elim)
      (fun _ => False.elim))
    exact fun _ _ hs' => hs'.refines hm
  | reboot => exact reboot_refines hs.shows hm

variable (P) in
theorem refines_fresh : Refines P (NvsStore.fresh P) .empty := by
  have hshows : Shows P .calm Image.blank
      (⟨{}, ⟨emptyPartition, [], []⟩, true⟩ : NvsStore Device SyncKey).flash :=
    ⟨⟨durableOk_emptyPartition P, fun _ h => by cases h⟩, image_emptyPartition P,
      fun _ h => by cases h⟩
  obtain ⟨a', hstep, href⟩ := reboot_refines hshows settled_blank
  have hempty : a' = .empty := by
    generalize reboot P _ = r at hstep
    rcases r with ⟨_ | _ | _, _⟩
    · exact hstep
    · exact hstep.elim
    · exact hstep.elim
  rwa [hempty] at href

variable (P) in
theorem execAll_of_refines (calls : List ((α : Type) × Call Device SyncKey α))
    {s : NvsStore Device SyncKey} {a : Maps Device SyncKey} (h : Refines P s a) :
    ∃ a', a.Run (execAll P calls s) a' := by
  induction calls generalizing s a with
  | nil => exact ⟨a, .nil a⟩
  | cons c calls ih =>
    obtain ⟨a', hstep, h'⟩ := exec_refines h c.2
    obtain ⟨a'', hrest⟩ := ih h'
    exact ⟨a'', .cons hstep hrest⟩

/-- **The store refines plain maps.**  Whatever calls are made on a fresh store, they are answered
as the maps would answer them. -/
theorem execAll_refines (P : Platform Device SyncKey)
    (calls : List ((α : Type) × Call Device SyncKey α)) :
    ∃ a, Maps.empty.Run (execAll P calls (NvsStore.fresh P)) a :=
  execAll_of_refines P calls (refines_fresh P)

end WhatsappEsp32
