import WhatsappEsp32.Lib.Recency
import WhatsappEsp32.Storage.Caps

/-!
# The use orders of the mirrors

The map and the use order of a mirror are two fields that the store updates by separate
statements.  Here they are followed together, with and without PSRAM, against a log of the uses:
successful writes, read hits and reloads, the ones of the boot replay included.

* `Mirror.Bookkept`: the order lists the keys of the map once, by last use;
* `Mirror.EvictsOldest`: an eviction drops keys from the least recently used end, except one;
* `LruOk`: the invariant, with what keeps it.
-/

namespace WhatsappEsp32

open CrashLogic FlashNamespaces NvsStore Recency

variable {K V Device SyncKey α : Type}

/-! ### One mirror -/

section

namespace Mirror

variable [DecidableEq K] {m m' : Mirror K V} {uses : List K}

/-- The order of `m` has no duplicates and exactly the keys of the map, by their last uses. -/
structure Bookkept (m : Mirror K V) (uses : List K) : Prop where
  nodup : m.order.Nodup
  mem_order : ∀ k, k ∈ m.order ↔ k ∈ m.map.keys
  byLastUse : m.order = uses.dedup.filter (· ∈ m.map.keys)

/-- Of the `n` least recently used keys only `spared` is left, and all others stay. -/
structure EvictsOldest (n : ℕ) (spared : Option K) (m m' : Mirror K V) : Prop where
  order : m'.order = (m.order.take n).filter (fun k => some k = spared) ++ m.order.drop n
  lookup : ∀ k, m'.map.lookup k = if k ∈ m'.order then m.map.lookup k else none

/-- The invariant behind `Bookkept`. -/
def ByUse (m : Mirror K V) (uses : List K) : Prop := m.Tracks ∧ Follows m.order uses

theorem ByUse.bookkept (h : m.ByUse uses) : m.Bookkept uses := by
  have hmem : ∀ k, k ∈ m.order ↔ k ∈ m.map.keys := fun k => h.1.mem_iff
  refine ⟨h.2.nodup, hmem, ?_⟩
  have heq := h.2.eq_filter
  simpa only [hmem] using heq

theorem byUse_empty (uses : List K) : ByUse ({} : Mirror K V) uses :=
  ⟨tracks_empty, .nil uses⟩

theorem ByUse.insert (h : m.ByUse uses) (k : K) (v : V) : (m.insert k v).ByUse (uses ++ [k]) :=
  ⟨h.1.insert k v, h.2.use k⟩

theorem ByUse.touch (h : m.ByUse uses) {k : K} (hk : k ∈ m.map.keys) :
    (m.touch k).ByUse (uses ++ [k]) :=
  ⟨h.1.touch hk, h.2.use k⟩

theorem ByUse.remove (h : m.ByUse uses) (k : K) : (m.remove k).ByUse uses :=
  ⟨h.1.remove k, h.2.sublist List.erase_sublist⟩

theorem ByUse.evict (h : m.ByUse uses) (keys : List K) : (m.evict keys).ByUse uses := by
  induction keys generalizing m with
  | nil => exact h
  | cons k keys ih => exact ih (h.remove k)

theorem ByUse.enforceCap (h : m.ByUse uses) (hasPsram : Bool) (cap : ℕ) :
    (m.enforceCap hasPsram cap).ByUse uses := by
  unfold Mirror.enforceCap
  split_ifs
  · exact h
  · exact h.evict _

theorem ByUse.enforceCapExcept (h : m.ByUse uses) (hasPsram : Bool) (spared : Option K) :
    (m.enforceCapExcept hasPsram spared).ByUse uses := by
  unfold Mirror.enforceCapExcept
  split_ifs
  · exact h
  · exact h.evict _

/-! ### Evictions -/

theorem evict_order (keys : List K) (m : Mirror K V) :
    (m.evict keys).order = keys.foldl List.erase m.order := by
  induction keys generalizing m with
  | nil => rfl
  | cons k keys ih => exact ih (m.remove k)

/-- The keys that are not in the order of a mirror are not in its map. -/
theorem Tracks.lookup_eq_none (h : m.Tracks) {k : K} (hk : k ∉ m.order) :
    m.map.lookup k = none := by
  rw [AList.lookup_eq_none, AList.mem_keys]
  exact fun hmem => hk (h.mem_iff.mpr hmem)

theorem evictsOldest_refl (h : m.Tracks) (spared : Option K) : EvictsOldest 0 spared m m where
  order := by simp
  lookup k := by
    split_ifs with hk
    · rfl
    · exact h.lookup_eq_none hk

theorem EvictsOldest.order_sublist {n : ℕ} {spared : Option K} (h : EvictsOldest n spared m m') :
    m'.order.Sublist m.order := by
  have hsub : ((m.order.take n).filter (fun k => some k = spared) ++ m.order.drop n).Sublist
      (m.order.take n ++ m.order.drop n) := List.filter_sublist.append_right _
  rwa [← h.order, List.take_append_drop] at hsub

theorem EvictsOldest.spared_mem_order {n : ℕ} {k : K} (h : EvictsOldest n (some k) m m')
    (hk : k ∈ m.order) : k ∈ m'.order := by
  rw [← List.take_append_drop n m.order, List.mem_append] at hk
  rw [h.order]
  simpa using hk

/-- Evicting the first `n` keys of the order, except the spared one. -/
theorem Tracks.evict_take (h : m.Tracks) (n : ℕ) (spared : Option K) :
    EvictsOldest n spared m
      (m.evict ((m.order.take n).filter fun k => decide (some k ≠ spared))) := by
  have horder : (m.evict ((m.order.take n).filter fun k => decide (some k ≠ spared))).order =
      (m.order.take n).filter (fun k => some k = spared) ++ m.order.drop n := by
    have hfold := foldl_erase_filter (fun k => decide (some k ≠ spared)) (m.order.take n)
      (m.order.drop n)
    rw [List.take_append_drop] at hfold
    rw [evict_order, hfold]
    simp
  refine ⟨horder, fun k => ?_⟩
  have hnodup := h.nodup
  rw [← List.take_append_drop n m.order] at hnodup
  rw [horder, evict_map, AList.lookup_eraseAll]
  by_cases hk : k ∈ m.order
  · rw [← List.take_append_drop n m.order, List.mem_append] at hk
    by_cases hspared : some k = spared
    · rw [if_neg (by simp [hspared]), if_pos]
      simpa [hspared] using hk
    · by_cases hfront : k ∈ m.order.take n
      · have hrest : k ∉ m.order.drop n := fun hrest =>
          (List.nodup_append.mp hnodup).2.2 k hfront k hrest rfl
        rw [if_pos (by simp [hfront, hspared]), if_neg (by simp [hrest, hspared])]
      · rw [if_neg (by simp [hfront]), if_pos]
        simpa [hfront] using hk
  · rw [h.lookup_eq_none hk]
    simp

/-- `enforce_identities_cap` and `enforce_sessions_cap` evict from the oldest end. -/
theorem Tracks.enforceCap_evicts (h : m.Tracks) (hasPsram : Bool) (cap : ℕ) :
    EvictsOldest (if hasPsram then 0 else m.map.size - cap) none m (m.enforceCap hasPsram cap) := by
  unfold Mirror.enforceCap
  split_ifs
  · exact evictsOldest_refl h none
  · have hevict := h.evict_take (m.map.size - cap) none
    rw [overflow_eq]
    simpa using hevict

/-- `enforce_sync_keys_cap_except` does so too, and skips only the protected key. -/
theorem Tracks.enforceCapExcept_evicts (h : m.Tracks) (hasPsram : Bool) (spared : Option K) :
    EvictsOldest (if hasPsram then 0 else m.map.size - 8) spared m
      (m.enforceCapExcept hasPsram spared) := by
  unfold Mirror.enforceCapExcept
  split_ifs
  · exact evictsOldest_refl h spared
  · have hevict := h.evict_take (m.map.size - 8) spared
    have hlength : ((m.order.take (m.map.size - 8)).filter fun k => some k ≠ spared).length ≤
        m.map.size - 8 :=
      (List.length_filter_le _ _).trans (List.length_take_le _ _)
    simp only [overflow_eq]
    rw [List.take_of_length_le hlength]
    exact hevict

/-- The key that comes in is not evicted, unless nothing may stay. -/
theorem Tracks.lookup_insert_enforceCap (h : m.Tracks) (hasPsram : Bool) {cap : ℕ} (hcap : 0 < cap)
    (k : K) (v : V) : ((m.insert k v).enforceCap hasPsram cap).map.lookup k = some v := by
  have hlookup : (m.insert k v).map.lookup k = some v := AList.lookup_insert _
  unfold Mirror.enforceCap
  split_ifs
  · exact hlookup
  · have hpos : 0 < (m.insert k v).map.size :=
      List.length_pos_of_mem (AList.mem_keys_iff_lookup.mpr ⟨v, hlookup⟩)
    rw [overflow_eq, evict_map, AList.lookup_eraseAll, if_neg, hlookup]
    exact h.insert_last_notMem k v (by omega)

end Mirror

end

/-! ### The invariant -/

/-- A log of the keys used in each of the three mirrors, the oldest use first. -/
structure Uses where
  identities : List String := []
  sessions : List String := []
  syncKeys : List Bytes := []

instance : Append Uses where
  append u v := ⟨u.identities ++ v.identities, u.sessions ++ v.sessions, u.syncKeys ++ v.syncKeys⟩

theorem Uses.append_eq (u v : Uses) :
    u ++ v = ⟨u.identities ++ v.identities, u.sessions ++ v.sessions, u.syncKeys ++ v.syncKeys⟩ :=
  rfl

@[simp] theorem Uses.append_empty (u : Uses) : u ++ ({} : Uses) = u := by
  simp [append_eq]

/-- The bookkeeping of all three mirrors, and the latest sync key is mirrored. -/
structure Bookkept (s : StoreInner Device SyncKey) (uses : Uses) : Prop where
  identities : s.identities.Bookkept uses.identities
  sessions : s.sessions.Bookkept uses.sessions
  syncKeys : s.syncKeys.Bookkept uses.syncKeys
  latest_mem : ∀ id, s.latestSyncKeyId = some id → id ∈ s.syncKeys.map.keys

/-- The invariant behind `Bookkept`. -/
structure LruOk (s : StoreInner Device SyncKey) (uses : Uses) : Prop where
  identities : s.identities.ByUse uses.identities
  sessions : s.sessions.ByUse uses.sessions
  syncKeys : s.syncKeys.ByUse uses.syncKeys
  latest_mem : ∀ id, s.latestSyncKeyId = some id → id ∈ s.syncKeys.map.keys

variable {P : Platform Device SyncKey} {s : StoreInner Device SyncKey} {uses : Uses}

theorem lruOk_empty (uses : Uses) : LruOk ({} : StoreInner Device SyncKey) uses where
  identities := Mirror.byUse_empty _
  sessions := Mirror.byUse_empty _
  syncKeys := Mirror.byUse_empty _
  latest_mem := nofun

namespace LruOk

theorem bookkept (h : LruOk s uses) : Bookkept s uses :=
  ⟨h.identities.bookkept, h.sessions.bookkept, h.syncKeys.bookkept, h.latest_mem⟩

/-- The older part of a log does not matter to a store that was built up later. -/
theorem append_left (h : LruOk s uses) (before : Uses) : LruOk s (before ++ uses) where
  identities := ⟨h.identities.1, h.identities.2.append_left before.identities⟩
  sessions := ⟨h.sessions.1, h.sessions.2.append_left before.sessions⟩
  syncKeys := ⟨h.syncKeys.1, h.syncKeys.2.append_left before.syncKeys⟩
  latest_mem := h.latest_mem

/-- The other mirrors do not matter. -/
theorem with_others (h : LruOk s uses) (device : Option Device)
    (prekeys signedPrekeys : Dict UInt32 Bytes) (senderKeys : Dict String Bytes) :
    LruOk { s with device, prekeys, signedPrekeys, senderKeys } uses :=
  ⟨h.identities, h.sessions, h.syncKeys, h.latest_mem⟩

theorem with_identities (h : LruOk s uses) {m : Mirror String IdentityKey} {used : List String}
    (hm : m.ByUse (uses.identities ++ used)) :
    LruOk { s with identities := m } (uses ++ { identities := used }) := by
  refine ⟨hm, ?_, ?_, h.latest_mem⟩
  · simpa [Uses.append_eq] using h.sessions
  · simpa [Uses.append_eq] using h.syncKeys

theorem with_sessions (h : LruOk s uses) {m : Mirror String Bytes} {used : List String}
    (hm : m.ByUse (uses.sessions ++ used)) :
    LruOk { s with sessions := m } (uses ++ { sessions := used }) := by
  refine ⟨?_, hm, ?_, h.latest_mem⟩
  · simpa [Uses.append_eq] using h.identities
  · simpa [Uses.append_eq] using h.syncKeys

theorem with_syncKeys (h : LruOk s uses) {m : Mirror Bytes SyncKey} {used : List Bytes}
    (hm : m.ByUse (uses.syncKeys ++ used)) {latest : Option Bytes}
    (hlatest : ∀ id, latest = some id → id ∈ m.map.keys) :
    LruOk { s with syncKeys := m, latestSyncKeyId := latest } (uses ++ { syncKeys := used }) := by
  refine ⟨?_, ?_, hm, hlatest⟩
  · simpa [Uses.append_eq] using h.identities
  · simpa [Uses.append_eq] using h.sessions

theorem mirrorIdentity (h : LruOk s uses) (address : String) (key : IdentityKey) :
    LruOk (s.mirrorIdentity P address key) (uses ++ { identities := [address] }) :=
  h.with_identities ((h.identities.insert address key).enforceCap _ _)

theorem mirrorSession (h : LruOk s uses) (address : String) (session : Bytes) :
    LruOk (s.mirrorSession P address session) (uses ++ { sessions := [address] }) :=
  h.with_sessions ((h.sessions.insert address session).enforceCap _ _)

/-- The protected key is the one that came in or was there before, and it stays. -/
theorem spared_mem_insert {m : Mirror Bytes SyncKey} {keyId : Bytes} {key : SyncKey}
    {hasPsram : Bool} {spared : Option Bytes}
    (h : ∀ id, spared = some id → id = keyId ∨ id ∈ m.map.keys) (id : Bytes)
    (hid : spared = some id) :
    id ∈ ((m.insert keyId key).enforceCapExcept hasPsram spared).map.keys := by
  have hmem : id ∈ (m.insert keyId key).map.keys := mem_keys_insert.mpr (h id hid)
  rw [AList.mem_keys_iff_lookup] at hmem ⊢
  rw [hid, Mirror.lookup_spared]
  exact hmem

/-- A key that comes in, with any protected key that is mirrored then. -/
theorem insertSyncKey (h : LruOk s uses) (keyId : Bytes) (key : SyncKey) {latest : Option Bytes}
    (hlatest : ∀ id, latest = some id → id = keyId ∨ id ∈ s.syncKeys.map.keys) :
    LruOk ({ s with latestSyncKeyId := latest }.mirrorSyncKey P keyId key)
      (uses ++ { syncKeys := [keyId] }) :=
  h.with_syncKeys ((h.syncKeys.insert keyId key).enforceCapExcept _ _)
    fun id hid => spared_mem_insert hlatest id hid

theorem mirrorSyncKey (h : LruOk s uses) (keyId : Bytes) (key : SyncKey) :
    LruOk (s.mirrorSyncKey P keyId key) (uses ++ { syncKeys := [keyId] }) :=
  h.insertSyncKey keyId key fun id hid => .inr (h.latest_mem id hid)

theorem setLatest (h : LruOk s uses) (keyId : Bytes) (key : SyncKey) :
    LruOk ({ s with latestSyncKeyId := some keyId }.mirrorSyncKey P keyId key)
      (uses ++ { syncKeys := [keyId] }) :=
  h.insertSyncKey keyId key fun _ hid => .inl (Option.some.inj hid).symm

end LruOk

end WhatsappEsp32
