import WhatsappEsp32.Storage.Store
import WhatsappEsp32.Storage.Image

/-!
# Mirrors and the maps they mirror

`MirrorOk full mirror st`: a mirror holds only entries of the map `st`, and all of them when it is
`full` (the capped mirrors are full with PSRAM, the others always).  `Loading` is the same while
the boot replay has walked only some of the records.  The persisted kinds are read off an `Image`
as typed maps.
-/

namespace WhatsappEsp32

variable {K V : Type} [DecidableEq K] {full : Prop} {mirror : Dict K V} {st : K → Option V}
  {k : K} {v : V}

/-- The mirror holds only entries of `st`, and all of them if it is `full`. -/
structure MirrorOk (full : Prop) (mirror : Dict K V) (st : K → Option V) : Prop where
  sound : ∀ k v, mirror.lookup k = some v → st k = some v
  complete : full → ∀ k v, st k = some v → mirror.lookup k = some v

namespace MirrorOk

protected theorem empty : MirrorOk full (∅ : Dict K V) fun _ => none :=
  ⟨fun k v h => by simp at h, fun _ k v h => by cases h⟩

protected theorem insert (h : MirrorOk full mirror st) (k : K) (v : V) :
    MirrorOk full (mirror.insert k v) (Function.update st k (some v)) where
  sound k' v' hl := by
    rw [AList.lookup_insert_eq] at hl
    split_ifs at hl with hk
    · subst hk
      rw [Function.update_self]
      exact hl
    · rw [Function.update_of_ne hk]
      exact h.sound k' v' hl
  complete hfull k' v' hs := by
    rw [AList.lookup_insert_eq]
    split_ifs with hk
    · subst hk
      rwa [Function.update_self] at hs
    · rw [Function.update_of_ne hk] at hs
      exact h.complete hfull k' v' hs

/-- Reloading a stored entry. -/
theorem insert_stored (h : MirrorOk full mirror st) (hs : st k = some v) :
    MirrorOk full (mirror.insert k v) st := by
  have hi := h.insert k v
  rwa [← hs, Function.update_eq_self] at hi

protected theorem erase (h : MirrorOk full mirror st) (k : K) :
    MirrorOk full (mirror.erase k) (Function.update st k none) where
  sound k' v' hl := by
    rw [AList.lookup_erase_eq] at hl
    split_ifs at hl with hk
    rw [Function.update_of_ne hk]
    exact h.sound k' v' hl
  complete hfull k' v' hs := by
    rw [AList.lookup_erase_eq]
    split_ifs with hk
    · subst hk
      rw [Function.update_self] at hs
      cases hs
    · rw [Function.update_of_ne hk] at hs
      exact h.complete hfull k' v' hs

/-- A mirror that need not be full may drop entries. -/
theorem shrink {mirror' : Dict K V} (h : MirrorOk full mirror st) (hfull : ¬full)
    (hsub : ∀ k v, mirror'.lookup k = some v → mirror.lookup k = some v) :
    MirrorOk full mirror' st :=
  ⟨fun k v hl => h.sound k v (hsub k v hl), fun hf => absurd hf hfull⟩

end MirrorOk

namespace Mirror

theorem evict_map (keys : List K) (m : Mirror K V) :
    (m.evict keys).map = m.map.eraseAll keys := by
  induction keys generalizing m with
  | nil => rfl
  | cons a keys ih =>
    rw [evict, List.foldl_cons, ← evict, ih]
    rfl

theorem lookup_of_evict {keys : List K} {m : Mirror K V}
    (h : (m.evict keys).map.lookup k = some v) : m.map.lookup k = some v := by
  rw [evict_map] at h
  exact AList.lookup_of_eraseAll h

theorem lookup_of_enforceCap {hasPsram : Bool} {cap : ℕ} {m : Mirror K V}
    (h : (m.enforceCap hasPsram cap).map.lookup k = some v) : m.map.lookup k = some v := by
  unfold enforceCap at h
  split_ifs at h
  · exact h
  · exact lookup_of_evict h

theorem lookup_of_enforceCapExcept {hasPsram : Bool} {spared : Option K} {m : Mirror K V}
    (h : (m.enforceCapExcept hasPsram spared).map.lookup k = some v) :
    m.map.lookup k = some v := by
  unfold enforceCapExcept at h
  split_ifs at h
  · exact h
  · exact lookup_of_evict h

/-- The spared key stays. -/
theorem lookup_spared (hasPsram : Bool) (m : Mirror K V) (k : K) :
    (m.enforceCapExcept hasPsram (some k)).map.lookup k = m.map.lookup k := by
  unfold enforceCapExcept
  split_ifs
  · rfl
  · rw [evict_map, AList.lookup_eraseAll, if_neg]
    intro hmem
    have hne := List.of_mem_filter (List.mem_of_mem_take hmem)
    simp at hne

end Mirror

section Caps

variable {hasPsram : Bool} {m : Mirror K V}

theorem MirrorOk.enforceCap (h : MirrorOk (hasPsram = true) m.map st) (cap : ℕ) :
    MirrorOk (hasPsram = true) (m.enforceCap hasPsram cap).map st := by
  unfold Mirror.enforceCap
  split_ifs with hp
  · exact h
  · exact h.shrink hp fun _ _ => Mirror.lookup_of_evict

theorem MirrorOk.enforceCapExcept (h : MirrorOk (hasPsram = true) m.map st) (spared : Option K) :
    MirrorOk (hasPsram = true) (m.enforceCapExcept hasPsram spared).map st := by
  unfold Mirror.enforceCapExcept
  split_ifs with hp
  · exact h
  · exact h.shrink hp fun _ _ => Mirror.lookup_of_evict

end Caps

/-! ### Loading -/

/-- `mirror` mirrors the entries of `st` whose names are in `seen`. -/
structure Loading (full : Prop) (name : K → String) (seen : List String) (mirror : Dict K V)
    (st : K → Option V) : Prop where
  sound : ∀ k v, mirror.lookup k = some v → st k = some v ∧ name k ∈ seen
  complete : full → ∀ k v, st k = some v → name k ∈ seen → mirror.lookup k = some v

namespace Loading

variable {name : K → String} {seen : List String}

protected theorem nil : Loading full name [] (∅ : Dict K V) st :=
  ⟨fun k v h => by simp at h, fun _ k v _ h => by cases h⟩

/-- The key of a record that has not been visited yet is not in the mirror. -/
theorem lookup_eq_none (h : Loading full name seen mirror st) (hn : name k ∉ seen) :
    mirror.lookup k = none := by
  cases hl : mirror.lookup k with
  | none => rfl
  | some v => exact absurd (h.sound k v hl).2 hn

protected theorem insert (h : Loading full name seen mirror st) (hs : st k = some v)
    (hinj : ∀ k' v', st k' = some v' → name k' = name k → k' = k) :
    Loading full name (seen ++ [name k]) (mirror.insert k v) st where
  sound k' v' hl := by
    rw [AList.lookup_insert_eq] at hl
    split_ifs at hl with hk
    · subst hk
      cases hl
      exact ⟨hs, by simp⟩
    · obtain ⟨hs', hmem⟩ := h.sound k' v' hl
      exact ⟨hs', List.mem_append_left _ hmem⟩
  complete hfull k' v' hs' hmem := by
    rw [AList.lookup_insert_eq]
    split_ifs with hk
    · subst hk
      rw [← hs, hs']
    · rcases List.mem_append.mp hmem with hmem | hmem
      · exact h.complete hfull k' v' hs' hmem
      · exact absurd (hinj k' v' hs' (by simpa using hmem)) hk

theorem shrink {mirror' : Dict K V} (h : Loading full name seen mirror st) (hfull : ¬full)
    (hsub : ∀ k v, mirror'.lookup k = some v → mirror.lookup k = some v) :
    Loading full name seen mirror' st :=
  ⟨fun k v hl => h.sound k v (hsub k v hl), fun hf => absurd hf hfull⟩

/-- When every stored name has been visited the mirror mirrors all of `st`. -/
theorem mirrorOk (h : Loading full name seen mirror st)
    (hall : ∀ k v, st k = some v → name k ∈ seen) : MirrorOk full mirror st :=
  ⟨fun k v hl => (h.sound k v hl).1, fun hfull k v hs => h.complete hfull k v hs (hall k v hs)⟩

variable {hasPsram : Bool} {m : Mirror K V}

theorem enforceCap (h : Loading (hasPsram = true) name seen m.map st) (cap : ℕ) :
    Loading (hasPsram = true) name seen (m.enforceCap hasPsram cap).map st := by
  unfold Mirror.enforceCap
  split_ifs with hp
  · exact h
  · exact h.shrink hp fun _ _ => Mirror.lookup_of_evict

theorem enforceCapExcept (h : Loading (hasPsram = true) name seen m.map st) (spared : Option K) :
    Loading (hasPsram = true) name seen (m.enforceCapExcept hasPsram spared).map st := by
  unfold Mirror.enforceCapExcept
  split_ifs with hp
  · exact h
  · exact h.shrink hp fun _ _ => Mirror.lookup_of_evict

end Loading

/-! ### The persisted kinds as typed maps -/

namespace Image

variable {Device SyncKey : Type} (P : Platform Device SyncKey) (m : Image Device)

/-- The identity that the image holds for an address. -/
def identity (address : String) : Option IdentityKey :=
  (m.records .identities (asBytes address)).bind toIdentityKey

/-- The session that it holds for an address. -/
def session (address : String) : Option Bytes := m.records .sessions (asBytes address)

/-- The pre-key with an id. -/
def prekey (id : UInt32) : Option Bytes := m.records .prekeys (u32ToLeBytes id)

/-- The signed pre-key with an id. -/
def signedPrekey (id : UInt32) : Option Bytes := m.records .signedPrekeys (u32ToLeBytes id)

/-- The sender key for an address. -/
def senderKey (address : String) : Option Bytes := m.records .senderKeys (asBytes address)

/-- The sync key with an id, where its bytes can be read. -/
def syncKey (keyId : Bytes) : Option SyncKey :=
  (m.records .syncKeys keyId).bind fun v => (P.syncKey.fromSlice v).toOption

end Image

/-- The mirrors of a running store against the content of its flash. -/
structure Coherent {Device SyncKey : Type} (P : Platform Device SyncKey)
    (s : StoreInner Device SyncKey) (m : Image Device) : Prop where
  device : s.device = m.device
  identities : MirrorOk (P.hasPsram = true) s.identities.map m.identity
  sessions : MirrorOk (P.hasPsram = true) s.sessions.map m.session
  prekeys : MirrorOk True s.prekeys m.prekey
  signedPrekeys : MirrorOk True s.signedPrekeys m.signedPrekey
  senderKeys : MirrorOk True s.senderKeys m.senderKey
  syncKeys : MirrorOk (P.hasPsram = true) s.syncKeys.map (m.syncKey P)

end WhatsappEsp32
