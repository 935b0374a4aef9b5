import WhatsappEsp32.Storage.Boot

/-!
# Specifications of the store operations

Each operation of `NvsStore` against the content of the flash.  `Held w m latest accepting s` says
that the flash of the store `s` holds `m`, that its mirrors are coherent with `m`, and what its
latest sync key and its write gate are.  A write that succeeds moves the content, a write that is
refused leaves everything as it was, and a lookup returns the entry of `m`, whether the mirror or
the flash serves it.
-/

namespace WhatsappEsp32

open CrashLogic FlashNamespaces NvsStore

variable {Device SyncKey α : Type} {P : Platform Device SyncKey} {w : Weather} {m m' : Image Device}
  {latest latest' : Option Bytes} {accepting : Bool}

variable (P) in
/-- The RAM side of a store against the content `m`. -/
structure Ram (m : Image Device) (latest : Option Bytes) (accepting : Bool)
    (s : NvsStore Device SyncKey) : Prop where
  coherent : Coherent P s.inner m
  latest_eq : s.inner.latestSyncKeyId = latest
  accepting_eq : s.acceptingWrites = accepting

variable (P) in
/-- A running store with the content `m`. -/
structure Held (w : Weather) (m : Image Device) (latest : Option Bytes) (accepting : Bool)
    (s : NvsStore Device SyncKey) : Prop where
  shows : Shows P w m s.flash
  ram : Ram P m latest accepting s

variable (P) in
/-- After an error: nothing has changed, unless a primitive has failed. -/
def Refused (w : Weather) (m : Image Device) (latest : Option Bytes) (accepting : Bool)
    (s : NvsStore Device SyncKey) : Prop :=
  Held P w m latest accepting s ∨ Broken P w w.mayFail s.flash

variable (P) in
/-- After a power loss: only the flash counts. -/
def Lost (w : Weather) (s : NvsStore Device SyncKey) : Prop := Broken P w w.mayCut s.flash

/-! ### The typed maps of an updated content -/

namespace Image

@[simp] theorem put_records_self (kind : Kind) (k v : Bytes) :
    (m.put kind k v).records kind = Function.update (m.records kind) k (some v) := by
  simp [put]

@[simp] theorem delete_records_self (kind : Kind) (k : Bytes) :
    (m.delete kind k).records kind = Function.update (m.records kind) k none := by
  simp [delete]

theorem identity_put (a : String) (key : IdentityKey) :
    (m.put .identities (asBytes a) key.1).identity = Function.update m.identity a (some key) := by
  funext a'
  by_cases h : a' = a
  · subst h
    simp [identity, toIdentityKey, key.2]
  · simp [identity, h, asBytes_injective.ne h]

theorem identity_delete (a : String) :
    (m.delete .identities (asBytes a)).identity = Function.update m.identity a none := by
  funext a'
  by_cases h : a' = a
  · subst h
    simp [identity]
  · simp [identity, h, asBytes_injective.ne h]

theorem syncKey_put (k : Bytes) {v : Bytes} {key : SyncKey} (hv : P.syncKey.fromSlice v = .ok key) :
    (m.put .syncKeys k v).syncKey P = Function.update (m.syncKey P) k (some key) := by
  funext k'
  by_cases h : k' = k
  · subst h
    simp [syncKey, hv, Except.toOption]
  · simp [syncKey, h]

/-- The map of a kind that is stored as it is, keyed through an injective encoding. -/
theorem records_put_comp {K : Type} [DecidableEq K] {enc : K → Bytes}
    (henc : Function.Injective enc) (kind : Kind) (k : K) (v : Bytes) :
    (fun k' => (m.put kind (enc k) v).records kind (enc k')) =
      Function.update (fun k' => m.records kind (enc k')) k (some v) := by
  rw [put_records_self]
  exact Function.update_comp_eq_of_injective _ henc k _

theorem records_delete_comp {K : Type} [DecidableEq K] {enc : K → Bytes}
    (henc : Function.Injective enc) (kind : Kind) (k : K) :
    (fun k' => (m.delete kind (enc k)).records kind (enc k')) =
      Function.update (fun k' => m.records kind (enc k')) k none := by
  rw [delete_records_self]
  exact Function.update_comp_eq_of_injective _ henc k _

theorem session_put (a : String) (v : Bytes) :
    (m.put .sessions (asBytes a) v).session = Function.update m.session a (some v) :=
  records_put_comp asBytes_injective _ _ _

theorem session_delete (a : String) :
    (m.delete .sessions (asBytes a)).session = Function.update m.session a none :=
  records_delete_comp asBytes_injective _ _

theorem prekey_put (id : UInt32) (v : Bytes) :
    (m.put .prekeys (u32ToLeBytes id) v).prekey = Function.update m.prekey id (some v) :=
  records_put_comp u32ToLeBytes_injective _ _ _

theorem prekey_delete (id : UInt32) :
    (m.delete .prekeys (u32ToLeBytes id)).prekey = Function.update m.prekey id none :=
  records_delete_comp u32ToLeBytes_injective _ _

theorem signedPrekey_put (id : UInt32) (v : Bytes) :
    (m.put .signedPrekeys (u32ToLeBytes id) v).signedPrekey =
      Function.update m.signedPrekey id (some v) :=
  records_put_comp u32ToLeBytes_injective _ _ _

theorem signedPrekey_delete (id : UInt32) :
    (m.delete .signedPrekeys (u32ToLeBytes id)).signedPrekey =
      Function.update m.signedPrekey id none :=
  records_delete_comp u32ToLeBytes_injective _ _

theorem senderKey_put (a : String) (v : Bytes) :
    (m.put .senderKeys (asBytes a) v).senderKey = Function.update m.senderKey a (some v) :=
  records_put_comp asBytes_injective _ _ _

theorem senderKey_delete (a : String) :
    (m.delete .senderKeys (asBytes a)).senderKey = Function.update m.senderKey a none :=
  records_delete_comp asBytes_injective _ _

end Image

/-! ### The mirrors of an updated content -/

namespace Coherent

variable {s : StoreInner Device SyncKey}

theorem put_identity (h : Coherent P s m) (a : String) (key : IdentityKey) :
    Coherent P (s.mirrorIdentity P a key) (m.put .identities (asBytes a) key.1) :=
  { h with
    identities := by
      rw [Image.identity_put]
      exact (h.identities.insert a key).enforceCap (m := s.identities.insert a key) 8 }

theorem delete_identity (h : Coherent P s m) (a : String) :
    Coherent P { s with identities := s.identities.remove a }
      (m.delete .identities (asBytes a)) :=
  { h with
    identities := by
      rw [Image.identity_delete]
      exact h.identities.erase a }

theorem put_session (h : Coherent P s m) (a : String) (v : Bytes) :
    Coherent P (s.mirrorSession P a v) (m.put .sessions (asBytes a) v) :=
  { h with
    sessions := by
      rw [Image.session_put]
      exact (h.sessions.insert a v).enforceCap (m := s.sessions.insert a v) 0 }

theorem delete_session (h : Coherent P s m) (a : String) :
    Coherent P { s with sessions := s.sessions.remove a } (m.delete .sessions (asBytes a)) :=
  { h with
    sessions := by
      rw [Image.session_delete]
      exact h.sessions.erase a }

theorem put_prekey (h : Coherent P s m) (id : UInt32) (v : Bytes) :
    Coherent P { s with prekeys := s.prekeys.insert id v } (m.put .prekeys (u32ToLeBytes id) v) :=
  { h with
    prekeys := by
      rw [Image.prekey_put]
      exact h.prekeys.insert id v }

theorem delete_prekey (h : Coherent P s m) (id : UInt32) :
    Coherent P { s with prekeys := s.prekeys.erase id } (m.delete .prekeys (u32ToLeBytes id)) :=
  { h with
    prekeys := by
      rw [Image.prekey_delete]
      exact h.prekeys.erase id }

theorem put_signedPrekey (h : Coherent P s m) (id : UInt32) (v : Bytes) :
    Coherent P { s with signedPrekeys := s.signedPrekeys.insert id v }
      (m.put .signedPrekeys (u32ToLeBytes id) v) :=
  { h with
    signedPrekeys := by
      rw [Image.signedPrekey_put]
      exact h.signedPrekeys.insert id v }

theorem delete_signedPrekey (h : Coherent P s m) (id : UInt32) :
    Coherent P { s with signedPrekeys := s.signedPrekeys.erase id }
      (m.delete .signedPrekeys (u32ToLeBytes id)) :=
  { h with
    signedPrekeys := by
      rw [Image.signedPrekey_delete]
      exact h.signedPrekeys.erase id }

theorem put_senderKey (h : Coherent P s m) (a : String) (v : Bytes) :
    Coherent P { s with senderKeys := s.senderKeys.insert a v }
      (m.put .senderKeys (asBytes a) v) :=
  { h with
    senderKeys := by
      rw [Image.senderKey_put]
      exact h.senderKeys.insert a v }

theorem delete_senderKey (h : Coherent P s m) (a : String) :
    Coherent P { s with senderKeys := s.senderKeys.erase a } (m.delete .senderKeys (asBytes a)) :=
  { h with
    senderKeys := by
      rw [Image.senderKey_delete]
      exact h.senderKeys.erase a }

theorem put_syncKey (h : Coherent P s m) (keyId : Bytes) {v : Bytes} {key : SyncKey}
    (hv : P.syncKey.fromSlice v = .ok key) :
    Coherent P ({ s with latestSyncKeyId := some keyId }.mirrorSyncKey P keyId key)
      { m.put .syncKeys keyId v with latestSync := some keyId } :=
  { h with
    syncKeys := by
      change MirrorOk _ _ ((m.put .syncKeys keyId v).syncKey P)
      rw [Image.syncKey_put keyId hv]
      exact (h.syncKeys.insert keyId key).enforceCapExcept (m := s.syncKeys.insert keyId key) _ }

theorem clear_sessions (h : Coherent P s m) :
    Coherent P { s with sessions := {} } (m.clear .sessions) :=
  { h with
    sessions := by
      have hnone : (m.clear .sessions).session = fun _ => none := rfl
      rw [hnone]
      exact .empty }

/-- A hit changes the use order only. -/
theorem touch_identity (h : Coherent P s m) (a : String) :
    Coherent P { s with identities := s.identities.touch a } m := { h with }

theorem touch_session (h : Coherent P s m) (a : String) :
    Coherent P { s with sessions := s.sessions.touch a } m := { h with }

theorem touch_syncKey (h : Coherent P s m) (keyId : Bytes) :
    Coherent P { s with syncKeys := s.syncKeys.touch keyId } m := { h with }

/-- A miss is followed by a reload of what the flash holds. -/
theorem reload_identity (h : Coherent P s m) {a : String} {key : IdentityKey}
    (hs : m.identity a = some key) : Coherent P (s.mirrorIdentity P a key) m :=
  { h with
    identities :=
      (h.identities.insert_stored hs).enforceCap (m := s.identities.insert a key) 8 }

theorem reload_session (h : Coherent P s m) {a : String} {v : Bytes}
    (hs : m.session a = some v) : Coherent P (s.mirrorSession P a v) m :=
  { h with
    sessions := (h.sessions.insert_stored hs).enforceCap (m := s.sessions.insert a v) 0 }

theorem reload_syncKey (h : Coherent P s m) {keyId : Bytes} {key : SyncKey}
    (hs : m.syncKey P keyId = some key) : Coherent P (s.mirrorSyncKey P keyId key) m :=
  { h with
    syncKeys :=
      (h.syncKeys.insert_stored hs).enforceCapExcept (m := s.syncKeys.insert keyId key) _ }

end Coherent

/-! ### Jobs, gates and updates -/

theorem run_spec {job : FlashM α} {Pre : FlashNamespaces → Prop}
    {Q : α → FlashNamespaces → Prop} {E : StoreError → FlashNamespaces → Prop}
    {C : FlashNamespaces → Prop} (h : Triple Pre job Q E C) :
    Triple (fun s => Pre s.flash ∧ Ram P m latest accepting s) (run job)
      (fun a s => Q a s.flash ∧ Ram P m latest accepting s)
      (fun e s => E e s.flash ∧ Ram P m latest accepting s) (fun s => C s.flash) := by
  refine Triple.zoom fun s ⟨hpre, hram⟩ => ?_
  have hframe : ∀ f, Ram P m latest accepting { s with flash := f } := fun _ => { hram with }
  exact h.weaken (fun f hf => hf ▸ hpre) (fun a f ha => ⟨ha, hframe f⟩)
    (fun e f he => ⟨he, hframe f⟩) (fun _ => id)

theorem Held.parts {s : NvsStore Device SyncKey} (h : Held P w m latest accepting s) :
    Shows P w m s.flash ∧ Ram P m latest accepting s := ⟨h.shows, h.ram⟩

/-- A flash job that only reads. -/
theorem run_read_spec {job : FlashM α} {Q : α → Prop}
    (h : Triple (Shows P w m) job (fun a f => Shows P w m f ∧ Q a) (fun _ _ => False)
      (fun _ => False)) :
    Triple (Held P w m latest accepting) (run job)
      (fun a s => Held P w m latest accepting s ∧ Q a) (fun _ _ => False) (fun _ => False) :=
  (run_spec h).weaken (fun _ => Held.parts) (fun _ _ h => ⟨⟨h.1.1, h.2⟩, h.1.2⟩) (fun _ _ h => h.1)
    (fun _ => id)

theorem writeOperation_spec :
    Triple (Held P w m latest accepting) writeOperation
      (fun _ => Held P w m latest accepting) (fun _ => Refused P w m latest accepting)
      (Lost P w) := by
  refine Triple.bindRead fun s hs => ⟨s, rfl, Triple.ite (fun _ => ?_) fun _ => ?_⟩
  · exact Triple.pure _ fun _ h => h ▸ hs
  · exact Triple.throw _ fun _ h => Or.inl (h ▸ hs)

theorem mirrorGate_spec (has : StoreInner Device SyncKey → Bool)
    (len : StoreInner Device SyncKey → ℕ) (max : ℕ) (label : String) :
    Triple (Held P w m latest accepting) (mirrorGate has len max label)
      (fun _ => Held P w m latest accepting) (fun _ => Refused P w m latest accepting)
      (Lost P w) :=
  Triple.bindRead fun s hs => ⟨s, rfl, Triple.ofExcept (fun _ _ _ h => h ▸ hs)
    fun _ _ _ h => Or.inl (h ▸ hs)⟩

/-- The flash job of a write, followed by the update of the mirrors. -/
theorem write_spec {job : FlashM Unit} {Pre : FlashNamespaces → Prop}
    {change : StoreInner Device SyncKey → StoreInner Device SyncKey}
    (hjob : Triple Pre job (fun _ => Shows P w m')
      (fun _ f => Shows P w m f ∨ Broken P w w.mayFail f) (Broken P w w.mayCut))
    (hcoherent : ∀ s, Coherent P s m → Coherent P (change s) m')
    (hlatest : ∀ s, s.latestSyncKeyId = latest → (change s).latestSyncKeyId = latest') :
    Triple (fun s => Pre s.flash ∧ Ram P m latest accepting s)
      (run job >>= fun _ => update change) (fun _ => Held P w m' latest' accepting)
      (fun _ => Refused P w m latest accepting)
      (Lost P w) := by
  refine Triple.bind ((run_spec hjob).weaken (fun _ => id) (fun _ _ => id) ?_ (fun _ => id))
    fun _ => Triple.modify _ fun s ⟨hf, hram⟩ =>
      ⟨hf, hcoherent _ hram.coherent, hlatest _ hram.latest_eq, hram.accepting_eq⟩
  rintro e s ⟨hf | hf, hram⟩
  · exact Or.inl ⟨hf, hram⟩
  · exact Or.inr hf

/-- The job of a single put or delete, in the form `write_spec` takes. -/
theorem job_spec {job : FlashM Unit}
    (h : Triple (Shows P w m) job (fun _ => Shows P w m')
      (fun _ f => Shows P w m f ∨ Torn P w w.mayFail m m' f) (Torn P w w.mayCut m m')) :
    Triple (Shows P w m) job (fun _ => Shows P w m')
      (fun _ f => Shows P w m f ∨ Broken P w w.mayFail f) (Broken P w w.mayCut) :=
  h.weaken (fun _ => id) (fun _ _ => id) (fun _ _ => Or.imp_right Torn.broken)
    (fun _ => Torn.broken)

/-! ### Writes -/

theorem put_spec (kind : Kind) {k v : Bytes} {label : String}
    {change : StoreInner Device SyncKey → StoreInner Device SyncKey} (hkey : kind.KeyOk k)
    (hv : v.length ≤ maxSignalRecordLen → kind.ValueOk P v)
    (hcoherent : ∀ s, Coherent P s m → Coherent P (change s) (m.put kind k v))
    (hlatest : ∀ s, (change s).latestSyncKeyId = s.latestSyncKeyId) :
    Triple (Held P w m latest accepting)
      (run (putRecord P (.records kind) k v label kind.maxEntries) >>= fun _ => update change)
      (fun _ => Held P w (m.put kind k v) latest accepting)
      (fun _ => Refused P w m latest accepting) (Lost P w) :=
  (write_spec (job_spec (putRecord_spec kind k v label hkey hv)) hcoherent
    fun s hs => (hlatest s).trans hs).pre fun _ => Held.parts

theorem delete_spec {kind : Kind} {k : Bytes} {label : String}
    {change : StoreInner Device SyncKey → StoreInner Device SyncKey}
    (hcoherent : ∀ s, Coherent P s m → Coherent P (change s) (m.delete kind k))
    (hlatest : ∀ s, (change s).latestSyncKeyId = s.latestSyncKeyId) :
    Triple (Held P w m latest accepting)
      (writeOperation >>= fun _ =>
        run (deleteRecord P (.records kind) k label) >>= fun _ => update change)
      (fun _ => Held P w (m.delete kind k) latest accepting)
      (fun _ => Refused P w m latest accepting) (Lost P w) :=
  Triple.bind writeOperation_spec fun _ =>
    (write_spec (job_spec (deleteRecord_spec kind k label)) hcoherent
      fun s hs => (hlatest s).trans hs).pre fun _ => Held.parts

theorem putIdentityBody_spec (a : String) (key : IdentityKey) :
    Triple (Held P w m latest accepting) (putIdentityBody P a key)
      (fun _ => Held P w (m.put .identities (asBytes a) key.1) latest accepting)
      (fun _ => Refused P w m latest accepting) (Lost P w) :=
  Triple.bind (mirrorGate_spec _ _ _ _) fun _ =>
    put_spec .identities ⟨a, rfl⟩ (fun _ => key.2) (fun _ h => h.put_identity a key)
      fun _ => rfl

theorem putIdentity_spec (a : String) (key : IdentityKey) :
    Triple (Held P w m latest accepting) (putIdentity P a key)
      (fun _ => Held P w (m.put .identities (asBytes a) key.1) latest accepting)
      (fun _ => Refused P w m latest accepting) (Lost P w) :=
  Triple.bind writeOperation_spec fun _ => putIdentityBody_spec a key

theorem deleteIdentity_spec (a : String) :
    Triple (Held P w m latest accepting) (deleteIdentity P a)
      (fun _ => Held P w (m.delete .identities (asBytes a)) latest accepting)
      (fun _ => Refused P w m latest accepting) (Lost P w) :=
  delete_spec (fun _ h => h.delete_identity a) fun _ => rfl

/-- A session is written in two jobs: the check of its slot, and the record itself. -/
theorem putSession_spec (a : String) (v : Bytes) :
    Triple (Held P w m latest accepting) (putSession P a v)
      (fun _ => Held P w (m.put .sessions (asBytes a) v) latest accepting)
      (fun _ => Refused P w m latest accepting) (Lost P w) := by
  unfold putSession
  split_ifs with hlen
  · exact Triple.throw _ fun _ => Or.inl
  refine Triple.bind writeOperation_spec fun _ => Triple.bind (mirrorGate_spec _ _ _ _) fun _ => ?_
  refine Triple.bind (M := fun name s => Held P w m latest accepting s ∧
    Admits P .sessions (asBytes a) name s.flash) ?_ fun name => ?_
  · refine (run_spec (checkRecordSlot_spec .sessions (asBytes a) v.length "session")).weaken
      (fun _ => Held.parts) ?_ ?_ (fun _ => False.elim)
    · exact fun name s ⟨⟨hf, ha, _⟩, hram⟩ => ⟨⟨hf, hram⟩, ha⟩
    · exact fun e s ⟨hf, hram⟩ => Or.inl ⟨hf, hram⟩
  refine Triple.ofFact (fun s h => h.2.length_le) fun hk => ?_
  rw [encodeRecord_of_le hk, Prog.ofExcept_ok_bind]
  simp only [record_payload]
  have hv : Kind.ValueOk P .sessions v := show v.length ≤ maxSignalRecordLen by omega
  refine (write_spec ((setBlob_spec .sessions (asBytes a) v name ⟨a, rfl⟩ hv).weaken (fun _ => id)
    (fun _ _ => id) (fun _ _ h => Or.inr (Torn.broken h)) (fun _ => Torn.broken))
    (fun _ h => h.put_session a v) (fun _ h => h)).pre ?_
  exact fun s ⟨hs, ha⟩ => ⟨⟨hs.shows, ha⟩, hs.ram⟩

theorem putSessionBody_spec (a : String) (v : Bytes) :
    Triple (Held P w m latest accepting) (putSessionBody P a v)
      (fun _ => Held P w (m.put .sessions (asBytes a) v) latest accepting)
      (fun _ => Refused P w m latest accepting) (Lost P w) :=
  Triple.bind (mirrorGate_spec _ _ _ _) fun _ =>
    put_spec .sessions ⟨a, rfl⟩ id (fun _ h => h.put_session a v) fun _ => rfl

theorem deleteSession_spec (a : String) :
    Triple (Held P w m latest accepting) (deleteSession P a)
      (fun _ => Held P w (m.delete .sessions (asBytes a)) latest accepting)
      (fun _ => Refused P w m latest accepting) (Lost P w) :=
  delete_spec (fun _ h => h.delete_session a) fun _ => rfl

theorem storePrekey_spec (id : UInt32) (v : Bytes) :
    Triple (Held P w m latest accepting) (storePrekey P id v)
      (fun _ => Held P w (m.put .prekeys (u32ToLeBytes id) v) latest accepting)
      (fun _ => Refused P w m latest accepting) (Lost P w) :=
  Triple.bind writeOperation_spec fun _ => Triple.bind (mirrorGate_spec _ _ _ _) fun _ =>
    put_spec .prekeys ⟨id, rfl⟩ (fun h => h) (fun _ h => h.put_prekey id v) fun _ => rfl

theorem removePrekey_spec (id : UInt32) :
    Triple (Held P w m latest accepting) (removePrekey P id)
      (fun _ => Held P w (m.delete .prekeys (u32ToLeBytes id)) latest accepting)
      (fun _ => Refused P w m latest accepting) (Lost P w) :=
  delete_spec (fun _ h => h.delete_prekey id) fun _ => rfl

theorem storeSignedPrekey_spec (id : UInt32) (v : Bytes) :
    Triple (Held P w m latest accepting) (storeSignedPrekey P id v)
      (fun _ => Held P w (m.put .signedPrekeys (u32ToLeBytes id) v) latest accepting)
      (fun _ => Refused P w m latest accepting) (Lost P w) :=
  Triple.bind writeOperation_spec fun _ => Triple.bind (mirrorGate_spec _ _ _ _) fun _ =>
    put_spec .signedPrekeys ⟨id, rfl⟩ (fun h => h)
      (fun _ h => h.put_signedPrekey id v) fun _ => rfl

theorem removeSignedPrekey_spec (id : UInt32) :
    Triple (Held P w m latest accepting) (removeSignedPrekey P id)
      (fun _ => Held P w (m.delete .signedPrekeys (u32ToLeBytes id)) latest accepting)
      (fun _ => Refused P w m latest accepting) (Lost P w) :=
  delete_spec (fun _ h => h.delete_signedPrekey id) fun _ => rfl

theorem putSenderKey_spec (a : String) (v : Bytes) :
    Triple (Held P w m latest accepting) (putSenderKey P a v)
      (fun _ => Held P w (m.put .senderKeys (asBytes a) v) latest accepting)
      (fun _ => Refused P w m latest accepting) (Lost P w) :=
  Triple.bind writeOperation_spec fun _ => Triple.bind (mirrorGate_spec _ _ _ _) fun _ =>
    put_spec .senderKeys ⟨a, rfl⟩ id (fun _ h => h.put_senderKey a v) fun _ => rfl

theorem deleteSenderKey_spec (a : String) :
    Triple (Held P w m latest accepting) (deleteSenderKey P a)
      (fun _ => Held P w (m.delete .senderKeys (asBytes a)) latest accepting)
      (fun _ => Refused P w m latest accepting) (Lost P w) :=
  delete_spec (fun _ h => h.delete_senderKey a) fun _ => rfl

theorem save_spec (device : Device) :
    Triple (Held P w m latest accepting) (save P device)
      (fun _ => Held P w { m with device := some device } latest accepting)
      (fun _ => Refused P w m latest accepting) (Lost P w) := by
  refine Triple.bind writeOperation_spec fun _ => Triple.pre ?_ fun _ => Held.parts
  exact write_spec (job_spec (saveDevice_spec device)) (fun _ h => { h with device := rfl })
    fun _ h => h

/-! ### Batches -/

namespace Image

/-- The identities of a batch are stored, one after the other. -/
def putIdentities (m : Image Device) (entries : List (String × IdentityKey)) : Image Device :=
  entries.foldl (fun m e => m.put .identities (asBytes e.1) e.2.1) m

/-- The sessions of a batch are stored, one after the other. -/
def putSessions (m : Image Device) (entries : List (String × Bytes)) : Image Device :=
  entries.foldl (fun m e => m.put .sessions (asBytes e.1) e.2) m

end Image

/-- After an error of a batch: the entries before the failing one are in. -/
def BatchRefused {β : Type} (P : Platform Device SyncKey) (w : Weather) (entries : List β)
    (content : List β → Image Device) (latest : Option Bytes) (accepting : Bool)
    (s : NvsStore Device SyncKey) : Prop :=
  (∃ n < entries.length, Held P w (content (entries.take n)) latest accepting s) ∨
    Broken P w w.mayFail s.flash

theorem putIdentities_spec (entries : List (String × IdentityKey)) :
    Triple (Held P w m latest accepting) (putIdentities P entries)
      (fun _ => Held P w (m.putIdentities entries) latest accepting)
      (fun _ => BatchRefused P w entries m.putIdentities latest accepting) (Lost P w) := by
  induction entries generalizing m with
  | nil => exact Triple.pure _ fun _ => id
  | cons e entries ih =>
    obtain ⟨a, key⟩ := e
    refine Triple.bind ((putIdentityBody_spec a key).weaken (fun _ => id) (fun _ _ => id) ?_
      (fun _ => id)) fun _ => ih.weaken (fun _ => id) (fun _ _ => id) ?_ (fun _ => id)
    · rintro _ s (hs | hs)
      · exact Or.inl ⟨0, by simp, hs⟩
      · exact Or.inr hs
    · rintro _ s (⟨n, hn, hs⟩ | hs)
      · exact Or.inl ⟨n + 1, by simpa using hn, hs⟩
      · exact Or.inr hs

theorem putSessions_spec (entries : List (String × Bytes)) :
    Triple (Held P w m latest accepting) (putSessions P entries)
      (fun _ => Held P w (m.putSessions entries) latest accepting)
      (fun _ => BatchRefused P w entries m.putSessions latest accepting) (Lost P w) := by
  induction entries generalizing m with
  | nil => exact Triple.pure _ fun _ => id
  | cons e entries ih =>
    obtain ⟨a, v⟩ := e
    refine Triple.bind ((putSessionBody_spec a v).weaken (fun _ => id) (fun _ _ => id) ?_
      (fun _ => id)) fun _ => ih.weaken (fun _ => id) (fun _ _ => id) ?_ (fun _ => id)
    · rintro _ s (hs | hs)
      · exact Or.inl ⟨0, by simp, hs⟩
      · exact Or.inr hs
    · rintro _ s (⟨n, hn, hs⟩ | hs)
      · exact Or.inl ⟨n + 1, by simpa using hn, hs⟩
      · exact Or.inr hs

/-- A batch is the write gate and the loop; an empty batch is no write at all. -/
theorem batch_spec {β : Type} {entries : List β} {content : List β → Image Device}
    {loop : StoreM Device SyncKey Unit} [Decidable (entries = [])] (hnil : content [] = m)
    (h : Triple (Held P w m latest accepting) loop
      (fun _ => Held P w (content entries) latest accepting)
      (fun _ => BatchRefused P w entries content latest accepting) (Lost P w)) :
    Triple (Held P w m latest accepting)
      (if entries = [] then pure () else writeOperation >>= fun _ => loop)
      (fun _ => Held P w (content entries) latest accepting)
      (fun _ => BatchRefused P w entries content latest accepting) (Lost P w) := by
  split_ifs with he
  · subst he
    rw [hnil]
    exact Triple.pure _ fun _ => id
  · refine Triple.bind (writeOperation_spec.weaken (fun _ => id) (fun _ _ => id) ?_ (fun _ => id))
      fun _ => h
    rintro _ s (hs | hs)
    · exact Or.inl ⟨0, List.length_pos_of_ne_nil he, by rw [List.take_zero, hnil]; exact hs⟩
    · exact Or.inr hs

theorem putIdentitiesBatch_spec (entries : List (String × IdentityKey)) :
    Triple (Held P w m latest accepting) (putIdentitiesBatch P entries)
      (fun _ => Held P w (m.putIdentities entries) latest accepting)
      (fun _ => BatchRefused P w entries m.putIdentities latest accepting) (Lost P w) :=
  batch_spec rfl (putIdentities_spec entries)

theorem putSessionsBatch_spec (entries : List (String × Bytes)) :
    Triple (Held P w m latest accepting) (putSessionsBatch P entries)
      (fun _ => Held P w (m.putSessions entries) latest accepting)
      (fun _ => BatchRefused P w entries m.putSessions latest accepting) (Lost P w) :=
  batch_spec rfl (putSessions_spec entries)

/-! ### Lookups -/

theorem loadIdentity_spec (a : String) :
    Triple (Held P w m latest accepting) (loadIdentity P a)
      (fun r s => Held P w m latest accepting s ∧ r = m.identity a) (fun _ _ => False)
      (fun _ => False) := by
  refine Triple.bindRead fun s hs => ⟨s.inner.identities.map.lookup a, rfl, ?_⟩
  cases hl : s.inner.identities.map.lookup a with
  | some key =>
    have hkey := hs.ram.coherent.identities.sound a key hl
    exact Triple.ofRun
      ⟨⟨hs.shows, hs.ram.coherent.touch_identity a, hs.ram.latest_eq, hs.ram.accepting_eq⟩,
        hkey.symm⟩
  | none =>
    refine Triple.bind ((run_read_spec (loadRecord_spec .identities (asBytes a) 32
      fun v hv => le_of_eq hv)).pre fun _ h => h ▸ hs) fun r => ?_
    refine Triple.ofFact (fun _ h => h.2) ?_
    rintro rfl
    refine Triple.pre (P := Held P w m latest accepting) ?_ fun _ h => h.1
    cases hr : m.records .identities (asBytes a) with
    | none => exact Triple.pure _ fun s hs => ⟨hs, by simp [Image.identity, hr]⟩
    | some v =>
      refine Triple.ofFact (fun s hs => hs.shows.imageOk.valueOk hr) fun hv => ?_
      have hid : m.identity a = some ⟨v, hv⟩ := identity_eq_some.mpr hr
      simp only [toIdentityKey_of_length hv]
      refine Triple.bind (Triple.modify _ fun s hs =>
        ⟨hs.shows, hs.ram.coherent.reload_identity hid, hs.ram.latest_eq, hs.ram.accepting_eq⟩)
        fun _ => Triple.pure _ fun s hs => ⟨hs, hid.symm⟩

theorem getSession_spec (a : String) :
    Triple (Held P w m latest accepting) (getSession P a)
      (fun r s => Held P w m latest accepting s ∧ r = m.session a) (fun _ _ => False)
      (fun _ => False) := by
  refine Triple.bindRead fun s hs => ⟨s.inner.sessions.map.lookup a, rfl, ?_⟩
  cases hl : s.inner.sessions.map.lookup a with
  | some v =>
    have hv := hs.ram.coherent.sessions.sound a v hl
    exact Triple.ofRun
      ⟨⟨hs.shows, hs.ram.coherent.touch_session a, hs.ram.latest_eq, hs.ram.accepting_eq⟩,
        hv.symm⟩
  | none =>
    refine Triple.bind ((run_read_spec (loadRecord_spec .sessions (asBytes a) maxSignalRecordLen
      fun v hv => hv)).pre fun _ h => h ▸ hs) fun r => ?_
    refine Triple.ofFact (fun _ h => h.2) ?_
    rintro rfl
    refine Triple.pre (P := Held P w m latest accepting) ?_ fun _ h => h.1
    cases hr : m.records .sessions (asBytes a) with
    | none => exact Triple.pure _ fun s hs => ⟨hs, hr.symm⟩
    | some v =>
      refine Triple.bind (Triple.modify _ fun s hs =>
        ⟨hs.shows, hs.ram.coherent.reload_session hr, hs.ram.latest_eq, hs.ram.accepting_eq⟩)
        fun _ => Triple.pure _ fun s hs => ⟨hs, hr.symm⟩

theorem getSyncKey_spec (keyId : Bytes) :
    Triple (Held P w m latest accepting) (getSyncKey P keyId)
      (fun r s => Held P w m latest accepting s ∧ r = m.syncKey P keyId) (fun _ _ => False)
      (fun _ => False) := by
  refine Triple.bindRead fun s hs => ⟨s.inner.syncKeys.map.lookup keyId, rfl, ?_⟩
  cases hl : s.inner.syncKeys.map.lookup keyId with
  | some key =>
    have hkey := hs.ram.coherent.syncKeys.sound keyId key hl
    exact Triple.ofRun
      ⟨⟨hs.shows, hs.ram.coherent.touch_syncKey keyId, hs.ram.latest_eq, hs.ram.accepting_eq⟩,
        hkey.symm⟩
  | none =>
    refine Triple.bind ((run_read_spec (loadSyncKey_spec keyId)).pre fun _ h => h ▸ hs) fun r => ?_
    refine Triple.ofFact (fun _ h => h.2) ?_
    rintro rfl
    refine Triple.pre (P := Held P w m latest accepting) ?_ fun _ h => h.1
    cases hr : m.syncKey P keyId with
    | none => exact Triple.pure _ fun s hs => ⟨hs, rfl⟩
    | some key =>
      refine Triple.bind (Triple.modify _ fun s hs =>
        ⟨hs.shows, hs.ram.coherent.reload_syncKey hr, hs.ram.latest_eq, hs.ram.accepting_eq⟩)
        fun _ => Triple.pure _ fun s hs => ⟨hs, rfl⟩

/-- A lookup served by the mirror alone. -/
theorem withInner_spec {f : StoreInner Device SyncKey → α} {Q : α → Prop}
    (h : ∀ s, Held P w m latest accepting s → Q (f s.inner)) :
    Triple (Held P w m latest accepting) (withInner f)
      (fun r s => Held P w m latest accepting s ∧ Q r) (fun _ _ => False) (fun _ => False) :=
  fun s hs => ⟨hs, h s hs⟩

/-- A full mirror answers for the map. -/
theorem MirrorOk.lookup_eq {K V : Type} [DecidableEq K] {mirror : Dict K V} {st : K → Option V}
    (h : MirrorOk True mirror st) (k : K) : mirror.lookup k = st k := by
  cases hl : mirror.lookup k with
  | some v => exact (h.sound k v hl).symm
  | none =>
    cases hs : st k with
    | none => rfl
    | some v =>
      rw [h.complete trivial k v hs] at hl
      cases hl

/-! ### Addresses -/

theorem addressesOf_eq {f : FlashNamespaces} (hf : Shows P w m f) {kind : Kind}
    (hkeys : ∀ k, kind.KeyOk k → ∃ a, k = asBytes a) (label : String) (names : List String)
    (hsub : ∀ name ∈ names, name ∈ (f.namespaces (.records kind)).keys) :
    ∃ addresses, addressesOf (.records kind) label names f = (.ok addresses, f) ∧
      addresses.map (addressName P) = names ∧
      ∀ a ∈ addresses, m.records kind (asBytes a) ≠ none := by
  induction names with
  | nil => exact ⟨[], rfl, rfl, by simp⟩
  | cons name names ih =>
    obtain ⟨k, v, rfl, hs⟩ := (hf.nsOk kind).mem_keys_iff.mp (hsub name (by simp))
    obtain ⟨hl, hk, hkey, -⟩ := (hf.nsOk kind).lookup_of_stored hs
    obtain ⟨a, rfl⟩ := hkeys k hkey
    obtain ⟨addresses, hrun, hmap, hsound⟩ := ih fun n hn => hsub n (by simp [hn])
    refine ⟨a :: addresses, ?_, by simp [hmap, addressName], ?_⟩
    · rw [addressesOf, Prog.bind_of_ok (signal_readBlob_eq hf _), hl]
      simp only [decodeRecord_record hk, Prog.ofExcept_ok_bind, fromUtf8_asBytes]
      rw [Prog.bind_of_ok hrun]
      rfl
    · intro a' ha'
      rcases List.mem_cons.mp ha' with rfl | ha'
      · rw [hf.records_eq, hs]
        simp
      · exact hsound a' ha'

/-- The addresses found by walking a namespace are the stored ones, each once. -/
theorem namespaceAddresses_spec (kind : Kind) (hkeys : ∀ k, kind.KeyOk k → ∃ a, k = asBytes a)
    (label : String) :
    Triple (Shows P w m) (namespaceAddresses P (.records kind) label)
      (fun addresses f => Shows P w m f ∧ addresses.Nodup ∧
        ∀ a, a ∈ addresses ↔ m.records kind (asBytes a) ≠ none)
      (fun _ _ => False) (fun _ => False) := by
  refine Triple.bindRead fun f hf => ⟨_, recordNames_eq _ _, ?_⟩
  obtain ⟨addresses, hrun, hmap, hsound⟩ := addressesOf_eq hf hkeys label
    (P.iterOrder (f.namespaces (.records kind)).keys) (fun _ => mem_iterOrder.mp)
  refine Triple.ofRun ?_
  rw [hrun]
  refine ⟨hf, ?_, fun a => ⟨hsound a, fun ha => ?_⟩⟩
  · exact List.Nodup.of_map (addressName P) (by rw [hmap]; exact iterOrder_nodup _)
  · -- the record of `a` has been visited, and its name belongs to no other stored address
    obtain ⟨v, hv⟩ := Option.ne_none_iff_exists'.mp ha
    have hname : addressName P a ∈ addresses.map (addressName P) := by
      rw [hmap]
      exact stored_mem_iterOrder hf hv
    obtain ⟨a', ha', heq⟩ := List.mem_map.mp hname
    obtain ⟨v', hv'⟩ := Option.ne_none_iff_exists'.mp (hsound a' ha')
    rwa [asBytes_injective (hf.imageOk.name_inj hv' hv heq.symm)]

theorem listSessions_spec :
    Triple (Held P w m latest accepting) (listSessions P)
      (fun r s => Held P w m latest accepting s ∧ r.Nodup ∧ ∀ a, a ∈ r ↔ m.session a ≠ none)
      (fun _ _ => False) (fun _ => False) := by
  unfold listSessions
  split_ifs with hp
  · refine withInner_spec (Q := fun r : List String => r.Nodup ∧ ∀ a, a ∈ r ↔ m.session a ≠ none)
      fun s hs => ⟨s.inner.sessions.map.keys_nodup, fun a => ?_⟩
    have hmirror := hs.ram.coherent.sessions
    rw [AList.mem_keys_iff_lookup, Option.ne_none_iff_exists']
    exact exists_congr fun v => ⟨hmirror.sound a v, hmirror.complete hp a v⟩
  · exact run_read_spec (namespaceAddresses_spec .sessions (fun _ h => h) "session")

/-- `address` belongs to `user`: it is `user` followed by `@` or `:`. -/
def AddressOf (user address : String) : Prop :=
  ∃ c rest, (c = '@' ∨ c = ':') ∧ address.toList = user.toList ++ c :: rest

theorem addressMatches_iff {address user : String} :
    addressMatches address user = true ↔ AddressOf user address := by
  unfold addressMatches AddressOf
  constructor
  · intro h
    obtain ⟨hpre, hnext⟩ := Bool.and_eq_true_iff.mp h
    obtain ⟨rest, hrest⟩ := List.isPrefixOf_iff_prefix.mp hpre
    rw [← hrest, List.drop_left] at hnext
    cases rest with
    | nil => cases hnext
    | cons c rest => exact ⟨c, rest, by simpa using hnext, hrest.symm⟩
  · rintro ⟨c, rest, hc, hrest⟩
    rw [hrest, List.drop_left]
    simpa using hc

theorem identity_ne_none (hm : ImageOk P m) (a : String) :
    m.identity a ≠ none ↔ m.records .identities (asBytes a) ≠ none := by
  simp only [Option.ne_none_iff_exists']
  constructor
  · rintro ⟨key, hkey⟩
    exact ⟨key.1, identity_eq_some.mp hkey⟩
  · rintro ⟨v, hv⟩
    exact ⟨⟨v, hm.valueOk hv⟩, identity_eq_some.mpr hv⟩

/-- The user has a stored session or identity. -/
def Image.HasStateFor (m : Image Device) (user : String) : Prop :=
  ∃ a, AddressOf user a ∧ (m.session a ≠ none ∨ m.identity a ≠ none)

theorem hasSignalStateForUser_spec (user : String) :
    Triple (Held P w m latest accepting) (hasSignalStateForUser P user)
      (fun r s => Held P w m latest accepting s ∧ (r = true ↔ m.HasStateFor user))
      (fun _ _ => False) (fun _ => False) := by
  refine Triple.bindRead fun s hs => ⟨s.inner.sessions.map.keys.any (addressMatches · user) ||
    s.inner.identities.map.keys.any (addressMatches · user), rfl, ?_⟩
  have hsessions := hs.ram.coherent.sessions
  have hidentities := hs.ram.coherent.identities
  have hmirrored : (s.inner.sessions.map.keys.any (addressMatches · user) ||
      s.inner.identities.map.keys.any (addressMatches · user)) = true ↔
      (∃ a, (∃ v, s.inner.sessions.map.lookup a = some v) ∧ AddressOf user a) ∨
        ∃ a, (∃ key, s.inner.identities.map.lookup a = some key) ∧ AddressOf user a := by
    simp only [Bool.or_eq_true, List.any_eq_true, addressMatches_iff, AList.mem_keys_iff_lookup]
  refine Triple.ite (fun hm => ?_) fun hnot => Triple.ite (fun hp => ?_) fun _ => ?_
  · -- what is mirrored is stored
    refine Triple.ofRun ⟨hs, fun _ => ?_, fun _ => rfl⟩
    rcases hmirrored.mp hm with ⟨a, ⟨v, hv⟩, ha⟩ | ⟨a, ⟨key, hkey⟩, ha⟩
    · exact ⟨a, ha, Or.inl (by rw [hsessions.sound a v hv]; simp)⟩
    · exact ⟨a, ha, Or.inr (by rw [hidentities.sound a key hkey]; simp)⟩
  · -- with PSRAM what is stored is mirrored
    rw [hmirrored] at hnot
    refine Triple.ofRun ⟨hs, by simp, ?_⟩
    rintro ⟨a, ha, hsome | hsome⟩
    · obtain ⟨v, hv⟩ := Option.ne_none_iff_exists'.mp hsome
      exact absurd (Or.inl ⟨a, ⟨v, hsessions.complete hp a v hv⟩, ha⟩) hnot
    · obtain ⟨key, hkey⟩ := Option.ne_none_iff_exists'.mp hsome
      exact absurd (Or.inr ⟨a, ⟨key, hidentities.complete hp a key hkey⟩, ha⟩) hnot
  · have hjob : Triple (Shows P w m) (do
          let sessions ← namespaceAddresses P (.records .sessions) "session"
          let identities ← namespaceAddresses P (.records .identities) "identity"
          pure (sessions ++ identities))
        (fun r f => Shows P w m f ∧ ∀ a, a ∈ r ↔ m.session a ≠ none ∨ m.identity a ≠ none)
        (fun _ _ => False) (fun _ => False) := by
      refine Triple.bind (namespaceAddresses_spec .sessions (fun _ h => h) "session")
        fun sessions => Triple.ofFact (fun _ h => h.2.2) fun hmem => ?_
      refine Triple.bind ((namespaceAddresses_spec .identities (fun _ h => h) "identity").pre
        fun _ h => h.1) fun identities => Triple.pure _ fun f ⟨hf, _, hmem'⟩ => ⟨hf, fun a => ?_⟩
      rw [List.mem_append, hmem, hmem', identity_ne_none hf.imageOk]
      rfl
    refine Triple.bind ((run_read_spec hjob).pre fun _ h => h ▸ hs) fun addresses =>
      Triple.pure _ fun s ⟨hs, hmem⟩ => ⟨hs, ?_⟩
    simp only [List.any_eq_true, addressMatches_iff, hmem, Image.HasStateFor]
    exact exists_congr fun a => and_comm

/-! ### Sync keys and maintenance -/

theorem Admits.of_namespaces {kind : Kind} {k : Bytes} {name : String} {f f' : FlashNamespaces}
    (h : Admits P kind k name f)
    (hns : f'.namespaces (.records kind) = f.namespaces (.records kind)) :
    Admits P kind k name f' := by
  refine ⟨h.name_eq, h.length_le, ?_, ?_⟩ <;> rw [hns]
  · exact h.own
  · exact h.room

/-- The marker is written first, then the key; a power loss in between leaves a marker that names
no key. -/
theorem writeSyncKey_spec (keyId payload : Bytes) {key : SyncKey}
    (hdec : P.syncKey.fromSlice payload = .ok key) :
    Triple (Shows P w m) (writeSyncKey P keyId payload)
      (fun _ => Shows P w { m.put .syncKeys keyId payload with latestSync := some keyId })
      (fun _ f => Shows P w m f ∨ Broken P w w.mayFail f) (Broken P w w.mayCut) := by
  refine Triple.bind ((prepareRecord_spec .syncKeys keyId payload "sync key").weaken (fun _ => id)
    (fun _ _ => id) (fun _ _ => Or.inl) (fun _ => False.elim)) ?_
  rintro ⟨name, r⟩
  refine Triple.ofState fun f ⟨hf, ha, hr, hlen⟩ => ?_
  simp only at ha hr
  subst hr
  refine Triple.bind ((saveLatestSyncKeyId_spec ha.length_le hf).weaken (fun _ => id)
    (fun _ _ => id) (fun _ _ h => Or.inr h.broken) (fun _ => Torn.broken)) fun _ => ?_
  refine (setBlob_spec (m := { m with latestSync := some keyId }) .syncKeys keyId payload name
    trivial ⟨hlen, key, hdec⟩).weaken ?_ (fun _ _ h => h) (fun _ _ h => Or.inr (Torn.broken h))
    (fun _ => Torn.broken)
  exact fun f' ⟨hf', hns⟩ => ⟨hf', ha.of_namespaces (hns _ (by simp))⟩

theorem setSyncKey_spec (keyId : Bytes) (key : SyncKey) :
    Triple (Held P w m latest accepting) (setSyncKey P keyId key)
      (fun _ s => ∃ payload, P.syncKey.fromSlice payload = .ok key ∧
        Held P w { m.put .syncKeys keyId payload with latestSync := some keyId } (some keyId)
          accepting s)
      (fun _ => Refused P w m latest accepting) (Lost P w) := by
  refine Triple.bind writeOperation_spec fun _ => Triple.bind (mirrorGate_spec _ _ _ _) fun _ => ?_
  cases hvec : P.syncKey.toVec key with
  | error e => exact Triple.throw _ fun _ => Or.inl
  | ok payload =>
    have hdec := P.syncKey.fromSlice_toVec key payload hvec
    refine (write_spec (writeSyncKey_spec keyId payload hdec) (fun _ h => h.put_syncKey keyId hdec)
      fun _ _ => rfl).weaken (fun _ => Held.parts) ?_ (fun _ _ => id) (fun _ => id)
    exact fun _ s hs => ⟨payload, hdec, hs⟩

/-- The flash job of `clear_sessions`. -/
theorem clearSessionsJob_spec :
    Triple (Shows P w m) (do
        let count ← recordCount (.records .sessions)
        Prog.modify clearSlots
        eraseNamespace P (.records .sessions) "session"
        pure count)
      (fun _ => Shows P w (m.clear .sessions)) (fun _ => Broken P w w.mayFail)
      (Broken P w w.mayCut) := by
  refine Triple.bindRead fun f hf => ⟨_, recordCount_eq _ _, ?_⟩
  refine Triple.bind (M := fun _ f => Shows P w m f ∧ f.validatedSessions = [])
    (Triple.modify _ fun g hg => ⟨hg ▸ hf.clearSlots, rfl⟩) fun _ => ?_
  exact Triple.bind (eraseKind_spec .sessions "session") fun _ => Triple.pure _ fun _ h => h.1

theorem clearSessions_spec :
    Triple (Held P w m latest accepting) (clearSessions P)
      (fun _ => Held P w (m.clear .sessions) latest accepting)
      (fun _ s => Broken P w w.mayFail s.flash) (Lost P w) := by
  refine Triple.bind ((run_spec clearSessionsJob_spec).weaken (fun _ => Held.parts) (fun _ _ => id)
    (fun _ _ h => h.1) (fun _ => id)) fun count => ?_
  refine Triple.bind (M := fun _ => Held P w (m.clear .sessions) latest accepting)
    (Triple.modify _ fun s ⟨hf, hram⟩ =>
      ⟨hf, hram.coherent.clear_sessions, hram.latest_eq, hram.accepting_eq⟩) fun _ => ?_
  exact Triple.pure _ fun _ => id

theorem reset_spec :
    Triple (Held P w m latest accepting) (reset P)
      (fun _ => Held P w Image.blank none accepting)
      (fun _ s => Broken P w w.mayFail s.flash) (Lost P w) := by
  refine Triple.bind ((run_spec resetAll_spec).weaken (fun _ => Held.parts) (fun _ _ => id)
    (fun _ _ h => h.1) (fun _ => id)) fun _ => Triple.modify _ fun s ⟨hf, hram⟩ =>
      ⟨hf, coherent_empty rfl fun _ _ => rfl, rfl, hram.accepting_eq⟩

theorem sealWrites_spec :
    Triple (Held P w m latest accepting) sealWrites (fun _ => Held P w m latest false)
      (fun _ _ => False) (fun _ => False) :=
  Triple.modify _ fun _ hs => ⟨hs.shows, hs.ram.coherent, hs.ram.latest_eq, rfl⟩

/-- A reboot keeps what a linked device owns. -/
theorem reboot_spec :
    Triple (fun s => Shows P w m s.flash) (reboot P)
      (fun _ s => ∃ latest, Held P w m.booted latest true s ∧ LatestOk latest m.booted)
      (fun _ s => Broken P w w.mayFail s.flash) (Lost P w) := by
  intro s hs
  have hopen := openFlash_spec ⟨s.flash.namespaces, [], s.flash.fates⟩ (P := P) (w := w) (m := m)
    ⟨⟨hs.ok.durable, fun _ h => by cases h⟩, hs.image_eq, hs.script⟩
  unfold reboot openPartition
  generalize openFlash P ⟨s.flash.namespaces, [], s.flash.fates⟩ = r at hopen
  rcases r with ⟨inner | e | _, f⟩
  · obtain ⟨hf, hcoherent, hlatest⟩ := hopen
    exact ⟨inner.latestSyncKeyId, ⟨hf, hcoherent, rfl, rfl⟩, hlatest.toLatestOk⟩
  · exact hopen
  · exact hopen

end WhatsappEsp32
