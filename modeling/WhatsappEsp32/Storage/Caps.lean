import WhatsappEsp32.Storage.Batch
import WhatsappEsp32.Storage.Reopen

/-!
# The caps of the mirrors

Without PSRAM the identity and sync-key mirrors are caches of eight entries, and no session is
mirrored.  The use order of a mirror lists its keys, so evicting from the front of the order
evicts from the mirror; but the sync-key cap spares the latest key without looking for another
one, and a read that brings in a ninth key while the latest key is the least recently used one
evicts nothing.

* `Mirror.Tracks`: the use order lists the keys of the map;
* `Mirror.enforceCap_spec`, `Mirror.enforceCapExcept_spec`: what the caps guarantee;
* `CapsOk`: the invariant, established by `open` (`openFlash_caps`) and kept by every call that
  does not crowd the latest key (`exec_caps`);
* `caps_of_uncrowded`: the caps hold in every run without such calls;
* `crowded_cap_fails`: and fail with one.
-/

namespace WhatsappEsp32

open CrashLogic FlashNamespaces NvsStore

variable {K V Device SyncKey α : Type}

/-! ### Use orders -/

section

namespace Mirror

variable {m : Mirror K V}

/-- The use order lists the keys of the map. -/
def Tracks (m : Mirror K V) : Prop := m.order.Perm m.map.keys

theorem tracks_empty : Tracks ({} : Mirror K V) := List.Perm.refl []

theorem Tracks.nodup (h : m.Tracks) : m.order.Nodup := h.nodup_iff.mpr m.map.keys_nodup

theorem Tracks.length_eq (h : m.Tracks) : m.order.length = m.map.size := List.Perm.length_eq h

end Mirror

variable [DecidableEq K]

theorem AList.size_erase_of_mem {m : Dict K V} {k : K} (h : k ∈ m.keys) :
    (m.erase k).size = m.size - 1 := by
  simp only [AList.size, AList.keys_erase, List.length_erase_of_mem h]

namespace Mirror

variable {m : Mirror K V}

theorem Tracks.insert (h : m.Tracks) (k : K) (v : V) : (m.insert k v).Tracks := by
  show (m.order.erase k ++ [k]).Perm (m.map.insert k v).keys
  rw [AList.keys_insert]
  exact (List.perm_append_singleton k _).trans ((h.erase k).cons k)

theorem Tracks.touch (h : m.Tracks) {k : K} (hk : k ∈ m.map.keys) : (m.touch k).Tracks := by
  show (m.order.erase k ++ [k]).Perm m.map.keys
  exact (List.perm_append_singleton k _).trans
    ((List.perm_cons_erase (h.mem_iff.mpr hk)).symm.trans h)

theorem Tracks.remove (h : m.Tracks) (k : K) : (m.remove k).Tracks := by
  show (m.order.erase k).Perm (m.map.erase k).keys
  rw [AList.keys_erase]
  exact h.erase k

theorem Tracks.evict (h : m.Tracks) (keys : List K) : (m.evict keys).Tracks := by
  induction keys generalizing m with
  | nil => exact h
  | cons k keys ih => exact ih (h.remove k)

/-- Every evicted entry makes room for one. -/
theorem size_evict {keys : List K} (hnodup : keys.Nodup) (hkeys : ∀ k ∈ keys, k ∈ m.map.keys) :
    (m.evict keys).map.size = m.map.size - keys.length := by
  induction keys generalizing m with
  | nil => rfl
  | cons k keys ih =>
    rw [List.nodup_cons] at hnodup
    have hrest : ∀ k' ∈ keys, k' ∈ (m.remove k).map.keys := by
      intro k' hk'
      show k' ∈ (m.map.erase k).keys
      rw [AList.keys_erase]
      refine (List.mem_erase_of_ne ?_).mpr (hkeys k' (List.mem_cons_of_mem k hk'))
      rintro rfl
      exact hnodup.1 hk'
    have hsize : (m.remove k).map.size = m.map.size - 1 :=
      AList.size_erase_of_mem (hkeys k List.mem_cons_self)
    show ((m.remove k).evict keys).map.size = _
    rw [ih hnodup.2 hrest, hsize, List.length_cons]
    omega

omit [DecidableEq K] in
theorem overflow_eq (order : LruOrder K) (len cap : ℕ) :
    LruOrder.overflow order len cap = order.take (len - cap) := by
  unfold LruOrder.overflow
  split_ifs with hover
  · rfl
  · rw [Nat.sub_eq_zero_of_le (Nat.le_of_not_gt hover), List.take_zero]

theorem enforceCap_spec (h : m.Tracks) (cap : ℕ) :
    (m.enforceCap false cap).Tracks ∧ (m.enforceCap false cap).map.size ≤ cap := by
  have hkeys : ∀ n, ∀ k ∈ m.order.take n, k ∈ m.map.keys := fun n k hk =>
    h.mem_iff.mp (List.mem_of_mem_take hk)
  refine ⟨h.evict _, ?_⟩
  show (m.evict (LruOrder.overflow m.order m.map.size cap)).map.size ≤ cap
  rw [overflow_eq, size_evict (h.nodup.sublist (List.take_sublist _ _)) (hkeys _),
    List.length_take, h.length_eq]
  omega

/-- The cap holds unless the spared key is among the entries that had to go. -/
theorem enforceCapExcept_spec (h : m.Tracks) (spared : Option K) :
    (m.enforceCapExcept false spared).Tracks ∧
    ((∀ k, spared = some k → k ∉ m.order.take (m.map.size - 8)) →
      (m.enforceCapExcept false spared).map.size ≤ 8) := by
  refine ⟨h.evict _, fun hspared => ?_⟩
  show (m.evict (((LruOrder.overflow m.order m.map.size 8).filter fun k => some k ≠ spared).take
    (m.map.size - 8))).map.size ≤ 8
  have hfilter : (m.order.take (m.map.size - 8)).filter (fun k => some k ≠ spared) =
      m.order.take (m.map.size - 8) := by
    rw [List.filter_eq_self]
    intro k hk
    simpa using fun heq : some k = spared => hspared k heq.symm hk
  rw [overflow_eq, hfilter, List.take_take, Nat.min_self,
    size_evict (h.nodup.sublist (List.take_sublist _ _)) fun k hk =>
      h.mem_iff.mp (List.mem_of_mem_take hk), List.length_take, h.length_eq]
  omega

/-- The spared key stays. -/
theorem spared_mem {k : K} (hk : k ∈ m.map.keys) :
    k ∈ (m.enforceCapExcept false (some k)).map.keys := by
  rw [AList.mem_keys_iff_lookup] at hk ⊢
  rw [lookup_spared]
  exact hk

/-- A key that was missing goes to the end of the use order and the others keep their places. -/
theorem Tracks.insert_of_miss (h : m.Tracks) {k : K} (hmiss : m.map.lookup k = none) (v : V) :
    (m.insert k v).order = m.order ++ [k] ∧ (m.insert k v).map.size = m.map.size + 1 := by
  have hkeys : k ∉ m.map.keys := by
    rw [AList.mem_keys_iff_lookup, hmiss]
    exact fun ⟨_, h⟩ => nomatch h
  have horder : k ∉ m.order := fun hk => hkeys (h.mem_iff.mp hk)
  refine ⟨?_, AList.size_insert_of_notMem hkeys v⟩
  show m.order.erase k ++ [k] = _
  rw [List.erase_of_not_mem horder]

/-- A full mirror keeps a ninth entry when the spared key is the least recently used one. -/
theorem Tracks.enforceCapExcept_oldest (h : m.Tracks) (hsize : m.map.size = 9) {k : K}
    (hk : m.order.head? = some k) : m.enforceCapExcept false (some k) = m := by
  have hlength := h.length_eq
  obtain ⟨first, rest, hcons⟩ := List.exists_cons_of_length_pos (by omega : 0 < m.order.length)
  rw [hcons, List.head?_cons, Option.some.injEq] at hk
  show m.evict (((LruOrder.overflow m.order m.map.size 8).filter fun k' => some k' ≠ some k).take
    (m.map.size - 8)) = m
  rw [hsize, hcons, hk]
  simp [LruOrder.overflow]
  rfl

/-- The most recently used key is not among the least recently used ones. -/
theorem Tracks.insert_last_notMem (h : m.Tracks) (k : K) (v : V) {n : ℕ}
    (hn : n < (m.insert k v).map.size) : k ∉ (m.insert k v).order.take n := by
  rw [← (h.insert k v).length_eq] at hn
  change n < (m.order.erase k ++ [k]).length at hn
  show k ∉ (m.order.erase k ++ [k]).take n
  rw [List.length_append, List.length_singleton] at hn
  rw [List.take_append_of_le_length (by omega)]
  exact fun hmem => h.nodup.not_mem_erase (List.mem_of_mem_take hmem)

end Mirror

end

/-! ### The invariant -/

/-- What the caps promise. -/
def WithinCaps (s : StoreInner Device SyncKey) : Prop :=
  s.identities.map.size ≤ 8 ∧ s.sessions.map.size = 0 ∧ s.syncKeys.map.size ≤ 8

/-- The use orders list the keys of their mirrors, and the caps hold. -/
structure CapsOk (s : StoreInner Device SyncKey) : Prop where
  identities : s.identities.Tracks
  sessions : s.sessions.Tracks
  syncKeys : s.syncKeys.Tracks
  within : WithinCaps s

theorem capsOk_empty : CapsOk ({} : StoreInner Device SyncKey) where
  identities := Mirror.tracks_empty
  sessions := Mirror.tracks_empty
  syncKeys := Mirror.tracks_empty
  within := ⟨Nat.zero_le 8, rfl, Nat.zero_le 8⟩

variable {P : Platform Device SyncKey} {s : StoreInner Device SyncKey}

namespace CapsOk

theorem with_identities (h : CapsOk s) {m : Mirror String IdentityKey} (hm : m.Tracks)
    (hsize : m.map.size ≤ 8) : CapsOk { s with identities := m } :=
  ⟨hm, h.sessions, h.syncKeys, hsize, h.within.2⟩

theorem with_sessions (h : CapsOk s) {m : Mirror String Bytes} (hm : m.Tracks)
    (hsize : m.map.size = 0) : CapsOk { s with sessions := m } :=
  ⟨h.identities, hm, h.syncKeys, h.within.1, hsize, h.within.2.2⟩

theorem with_syncKeys (h : CapsOk s) {m : Mirror Bytes SyncKey} (hm : m.Tracks)
    (hsize : m.map.size ≤ 8) (latest : Option Bytes) :
    CapsOk { s with syncKeys := m, latestSyncKeyId := latest } :=
  ⟨h.identities, h.sessions, hm, h.within.1, h.within.2.1, hsize⟩

/-- The mirrors without a cap do not matter. -/
theorem with_others (h : CapsOk s) (device : Option Device)
    (prekeys signedPrekeys : Dict UInt32 Bytes) (senderKeys : Dict String Bytes) :
    CapsOk { s with device, prekeys, signedPrekeys, senderKeys } :=
  ⟨h.identities, h.sessions, h.syncKeys, h.within⟩

theorem mirrorIdentity (h : CapsOk s) (hpsram : P.hasPsram = false) (address : String)
    (key : IdentityKey) : CapsOk (s.mirrorIdentity P address key) := by
  obtain ⟨htracks, hsize⟩ := Mirror.enforceCap_spec (h.identities.insert address key) 8
  unfold StoreInner.mirrorIdentity StoreInner.enforceIdentitiesCap
  rw [hpsram]
  exact h.with_identities htracks hsize

theorem mirrorSession (h : CapsOk s) (hpsram : P.hasPsram = false) (address : String)
    (session : Bytes) : CapsOk (s.mirrorSession P address session) := by
  obtain ⟨htracks, hsize⟩ := Mirror.enforceCap_spec (h.sessions.insert address session) 0
  unfold StoreInner.mirrorSession StoreInner.enforceSessionsCap
  rw [hpsram]
  exact h.with_sessions htracks (Nat.le_zero.mp hsize)

end CapsOk

/-! ### Opening -/

theorem visitNames_returns {S : Type} {I : S → Prop} {n : Ns} {label : String} {maxValueLen : ℕ}
    {visit : S → Bytes → Bytes → Except StoreError S}
    (hvisit : ∀ s k v s', visit s k v = .ok s' → I s → I s') (names : List String) :
    ∀ s, I s → Returns I (visitNames P n label maxValueLen visit names s) := by
  induction names with
  | nil =>
    intro s hs
    exact .pure hs
  | cons name names ih =>
    intro s hs
    refine .bindAny fun entry => ?_
    refine .bind (.ofExcept fun s' hs' => hvisit s entry.1 entry.2 s' hs' hs) fun s' hs' => ?_
    exact ih s' hs'

/-- What every visit keeps holds after the loop. -/
theorem visitRecords_returns {S : Type} {I : S → Prop} {n : Ns} {label : String}
    {maxEntries maxValueLen : ℕ} {visit : S → Bytes → Bytes → Except StoreError S}
    (hvisit : ∀ s k v s', visit s k v = .ok s' → I s → I s') {s : S} (hs : I s) :
    Returns I (visitRecords P n label maxEntries maxValueLen visit s) := by
  refine .bindAny fun names => ?_
  refine Returns.ite (fun _ => .throw _) fun _ => ?_
  exact visitNames_returns hvisit names s hs

/-- What a visited identity record does. -/
theorem visitIdentity_ok {k v : Bytes} {s' : StoreInner Device SyncKey}
    (h : visitIdentity P s k v = .ok s') :
    ∃ address key, fromUtf8 k = some address ∧ s' = s.mirrorIdentity P address key := by
  unfold visitIdentity decodeStringKey at h
  cases hkey : fromUtf8 k with
  | none =>
    rw [hkey] at h
    cases h
  | some address =>
    simp only [hkey, bind, Except.bind] at h
    split at h
    · cases h
    · rename_i key _
      split_ifs at h
      exact ⟨address, key, rfl, (Except.ok.inj h).symm⟩

theorem visitIdentity_caps (hpsram : P.hasPsram = false) (s : StoreInner Device SyncKey)
    (k v : Bytes) (s' : StoreInner Device SyncKey) (h : visitIdentity P s k v = .ok s')
    (hs : CapsOk s) : CapsOk s' := by
  obtain ⟨address, key, -, rfl⟩ := visitIdentity_ok h
  exact hs.mirrorIdentity hpsram address key

/-- What a visited session record does. -/
theorem visitSession_ok {k v : Bytes} {s' : StoreInner Device SyncKey}
    (h : visitSession P s k v = .ok s') :
    ∃ address, fromUtf8 k = some address ∧ s' = s.mirrorSession P address v := by
  unfold visitSession decodeStringKey at h
  cases hkey : fromUtf8 k with
  | none =>
    rw [hkey] at h
    cases h
  | some address =>
    simp only [hkey, bind, Except.bind] at h
    split_ifs at h
    exact ⟨address, rfl, (Except.ok.inj h).symm⟩

theorem visitSession_caps (hpsram : P.hasPsram = false) (s : StoreInner Device SyncKey)
    (k v : Bytes) (s' : StoreInner Device SyncKey) (h : visitSession P s k v = .ok s')
    (hs : CapsOk s) : CapsOk s' := by
  obtain ⟨address, -, rfl⟩ := visitSession_ok h
  exact hs.mirrorSession hpsram address v

/-- During the replay of the sync keys the spared key may hold up the eviction, so only the other
mirrors are within their caps. -/
structure ReplayOk (s : StoreInner Device SyncKey) (newest : Option Bytes) : Prop where
  others : CapsOk ({ s with syncKeys := {} } : StoreInner Device SyncKey)
  tracks : s.syncKeys.Tracks
  newest_mem : ∀ k, newest = some k → k ∈ s.syncKeys.map.keys

theorem CapsOk.replayOk (h : CapsOk s) : ReplayOk s none :=
  ⟨h.with_syncKeys Mirror.tracks_empty (Nat.zero_le 8) s.latestSyncKeyId, h.syncKeys, nofun⟩

theorem mem_keys_insert {m : Mirror Bytes SyncKey} {k k' : Bytes} {v : SyncKey} :
    k' ∈ (m.insert k v).map.keys ↔ k' = k ∨ k' ∈ m.map.keys := by
  show k' ∈ (m.map.insert k v).keys ↔ _
  rw [← AList.mem_keys, AList.mem_insert, AList.mem_keys]

/-- The visited key is the newest so far: no key was, or it is no older than that one. -/
def isNewer (P : Platform Device SyncKey) (mirror : Mirror Bytes SyncKey) (newest : Option Bytes)
    (key : SyncKey) : Bool :=
  match newest.bind mirror.map.lookup with
  | none => true
  | some latest => decide (P.timestamp key ≥ P.timestamp latest)

/-- What a visited sync-key record does: it becomes the spared key if it is the newest one. -/
theorem visitSyncKey_eq {newest : Option Bytes} {k v : Bytes} {key : SyncKey}
    (hkey : P.syncKey.fromSlice v = .ok key) (hmiss : s.syncKeys.map.lookup k = none)
    {newest' : Option Bytes}
    (hnewest : newest' = if isNewer P s.syncKeys newest key then some k else newest) :
    visitSyncKey P (s, newest) k v = .ok
      ({ s with syncKeys := (s.syncKeys.insert k key).enforceCapExcept P.hasPsram newest' },
        newest') := by
  subst hnewest
  unfold visitSyncKey isNewer
  simp only [hkey, hmiss]
  rfl

theorem visitSyncKey_ok {newest : Option Bytes} {k v : Bytes}
    {state' : StoreInner Device SyncKey × Option Bytes}
    (h : visitSyncKey P (s, newest) k v = .ok state') :
    ∃ key, P.syncKey.fromSlice v = .ok key ∧ s.syncKeys.map.lookup k = none := by
  unfold visitSyncKey at h
  cases hkey : P.syncKey.fromSlice v with
  | error e =>
    simp only [hkey] at h
    cases h
  | ok key =>
    simp only [hkey] at h
    split at h
    · cases h
    · rename_i hmiss
      exact ⟨key, rfl, by simpa using hmiss⟩

theorem visitSyncKey_caps (hpsram : P.hasPsram = false)
    (state : StoreInner Device SyncKey × Option Bytes) (k v : Bytes)
    (state' : StoreInner Device SyncKey × Option Bytes) (h : visitSyncKey P state k v = .ok state')
    (hs : ReplayOk state.1 state.2) : ReplayOk state'.1 state'.2 := by
  obtain ⟨s, newest⟩ := state
  obtain ⟨key, hkey, hmiss⟩ := visitSyncKey_ok h
  rw [visitSyncKey_eq hkey hmiss rfl] at h
  cases h
  have htracks := hs.tracks.insert k key
  rw [hpsram]
  refine ⟨hs.others, (Mirror.enforceCapExcept_spec htracks _).1, fun k' hk' => ?_⟩
  -- The spared key is the new one or the one spared so far: either is in the mirror.
  have hmem : k' ∈ (s.syncKeys.insert k key).map.keys := by
    rw [mem_keys_insert]
    cases hnewer : isNewer P s.syncKeys newest key with
    | true => exact .inl (by simpa [hnewer] using hk'.symm)
    | false => exact .inr (hs.newest_mem k' (by simpa [hnewer] using hk'))
  simp only at hk' ⊢
  rw [hk']
  exact Mirror.spared_mem hmem

theorem loadRecorded_caps {newest : Option Bytes} (h : ReplayOk s newest) (recorded : Option Bytes) :
    Returns (fun s' => ReplayOk s' newest) (loadRecorded P s recorded) := by
  cases recorded with
  | none => exact .pure h
  | some id =>
    refine Returns.ite (fun _ => .pure h) fun _ => ?_
    refine .bindAny fun loaded => ?_
    rcases loaded with e | ⟨_ | key⟩
    · exact .pure h
    · exact .pure h
    · refine .pure ⟨h.others, h.tracks.insert id key, fun k hk => ?_⟩
      exact mem_keys_insert.mpr (.inr (h.newest_mem k hk))

/-- The latest key alone, with its order. -/
theorem Mirror.tracks_latest {m : Mirror Bytes SyncKey} {latest : Bytes} (h : latest ∈ m.map.keys) :
    Mirror.Tracks (⟨m.map.retain fun k _ => some k = some latest, LruOrder.touched [] latest⟩ :
      Mirror Bytes SyncKey) := by
  show [latest].Perm (m.map.retain fun k _ => decide (some k = some latest)).keys
  rw [List.perm_ext_iff_of_nodup (List.nodup_singleton latest) (AList.keys_nodup _)]
  intro k
  rw [List.mem_singleton, AList.mem_keys_iff_lookup]
  simp only [AList.lookup_retain, Option.filter_eq_some_iff, decide_eq_true_eq, Option.some.injEq]
  constructor
  · rintro rfl
    obtain ⟨v, hv⟩ := AList.mem_keys_iff_lookup.mp h
    exact ⟨v, hv, rfl⟩
  · rintro ⟨v, -, hk⟩
    exact hk

theorem keepLatest_caps (hpsram : P.hasPsram = false) {latest : Option Bytes}
    (h : ReplayOk s latest) : CapsOk (keepLatest P { s with latestSyncKeyId := latest }) := by
  unfold keepLatest
  split_ifs with hover
  · cases latest with
    | none =>
      have hempty : (s.syncKeys.map.retain fun k _ => decide (some k = none)) = ∅ :=
        AList.retain_false _
      simp only
      rw [hempty]
      exact h.others.with_syncKeys Mirror.tracks_empty (Nat.zero_le 8) none
    | some latest =>
      have htracks := Mirror.tracks_latest (h.newest_mem latest rfl)
      refine h.others.with_syncKeys htracks ?_ (some latest)
      rw [← htracks.length_eq]
      exact Nat.one_le_ofNat
  · have hsize : s.syncKeys.map.size ≤ 8 := by
      by_contra hlt
      exact hover ⟨by simp [hpsram], Nat.lt_of_not_le hlt⟩
    exact h.others.with_syncKeys h.tracks hsize latest

theorem resolveLatest_caps (hpsram : P.hasPsram = false) {newest : Option Bytes}
    (h : ReplayOk s newest) : Returns CapsOk (resolveLatest P s newest) := by
  refine .bindAny fun recorded => ?_
  refine .bind (loadRecorded_caps h _) fun s' hs' => .pure ?_
  refine keepLatest_caps hpsram ⟨hs'.others, hs'.tracks, fun k hk => ?_⟩
  rcases Option.or_eq_some_iff.mp hk with hk | ⟨-, hk⟩
  · rw [Option.filter_eq_some_iff, Option.isSome_iff_exists] at hk
    exact AList.mem_keys_iff_lookup.mpr hk.2
  · exact hs'.newest_mem k hk

theorem replay_caps (hpsram : P.hasPsram = false) (device : Device) :
    Returns CapsOk (replay P device) := by
  have hstart : CapsOk ({ device := some device } : StoreInner Device SyncKey) :=
    ⟨Mirror.tracks_empty, Mirror.tracks_empty, Mirror.tracks_empty, Nat.zero_le 8, rfl,
      Nat.zero_le 8⟩
  refine .bind (visitRecords_returns (visitIdentity_caps hpsram) hstart) fun s hs => ?_
  refine .bind (visitRecords_returns (visitSession_caps hpsram) hs) fun s hs => ?_
  refine .bindAny fun _ => .bindAny fun prekeys => .bindAny fun _ => .bindAny fun signedPrekeys =>
    .bindAny fun _ => .bindAny fun senderKeys => ?_
  have hrest : CapsOk { s with prekeys, signedPrekeys, senderKeys } :=
    hs.with_others s.device prekeys signedPrekeys senderKeys
  refine .bind (visitRecords_returns (I := fun state => ReplayOk state.1 state.2)
    (visitSyncKey_caps hpsram) hrest.replayOk) fun state hstate => ?_
  exact resolveLatest_caps hpsram hstate

/-- Whatever the partition holds, `open` leaves the mirrors within their caps. -/
theorem openFlash_caps (hpsram : P.hasPsram = false) : Returns CapsOk (openFlash P) := by
  refine .bindAny fun _ => .bindAny fun device => ?_
  cases device with
  | none => exact .bindAny fun _ => .pure capsOk_empty
  | some device => exact replay_caps hpsram device

/-! ### The calls -/

section

variable {I : StoreInner Device SyncKey → Prop}

theorem keeps_run (job : FlashM α) :
    Keeps (fun s : NvsStore Device SyncKey => I s.inner) (run job) := by
  intro s hs
  unfold run Prog.zoom
  generalize job s.flash = r
  obtain ⟨a | e | _, f⟩ := r <;> exact hs

theorem keeps_update {f : StoreInner Device SyncKey → StoreInner Device SyncKey}
    (hf : ∀ s, I s → I (f s)) : Keeps (fun s : NvsStore Device SyncKey => I s.inner) (update f) :=
  Triple.modify _ fun s hs => hf s.inner hs

theorem keeps_writeOperation :
    Keeps (fun s : NvsStore Device SyncKey => I s.inner) writeOperation := by
  refine .of_state fun s => ?_
  unfold writeOperation
  rw [Prog.bind_of_ok (Prog.get_run s)]
  split_ifs <;> rfl

theorem keeps_mirrorGate (has : StoreInner Device SyncKey → Bool)
    (len : StoreInner Device SyncKey → ℕ) (max : ℕ) (label : String) :
    Keeps (fun s : NvsStore Device SyncKey => I s.inner) (mirrorGate has len max label) := by
  refine .of_state fun s => ?_
  obtain h | ⟨e, h⟩ := mirrorGate_cases has len max label s <;> rw [h]

theorem keeps_withInner (f : StoreInner Device SyncKey → α) :
    Keeps (fun s : NvsStore Device SyncKey => I s.inner) (withInner f) :=
  .of_state fun _ => rfl

theorem withInner_of {β : Type} {f : StoreInner Device SyncKey → β} {b : β}
    {st : NvsStore Device SyncKey} (h : f st.inner = b) : withInner f st = (.ok b, st) := by
  unfold withInner
  rw [h]

/-- A lookup in a mirror: the rest of the call knows what the mirror has. -/
theorem keeps_lookup {β : Type} {f : StoreInner Device SyncKey → β}
    {next : β → StoreM Device SyncKey α}
    (h : ∀ b, Triple (fun s => I s.inner ∧ f s.inner = b) (next b) (fun _ s => I s.inner)
      (fun _ s => I s.inner) (fun s => I s.inner)) :
    Keeps (fun s : NvsStore Device SyncKey => I s.inner) (withInner f >>= next) := by
  refine Triple.bindRead fun s hs => ⟨f s.inner, withInner_of rfl, (h (f s.inner)).pre ?_⟩
  rintro _ rfl
  exact ⟨hs, rfl⟩

/-- The part of a write after the sealing check: the gate, the flash job, the mirror update. -/
theorem keeps_gated {has : StoreInner Device SyncKey → Bool} {len : StoreInner Device SyncKey → ℕ}
    {max : ℕ} {label : String} {job : FlashM α}
    {f : StoreInner Device SyncKey → StoreInner Device SyncKey} (hf : ∀ s, I s → I (f s)) :
    Keeps (fun s : NvsStore Device SyncKey => I s.inner) (do
      mirrorGate has len max label
      let _ ← run job
      update f) :=
  (keeps_mirrorGate has len max label).bind fun _ => (keeps_run job).bind fun _ => keeps_update hf

/-- A write without a gate. -/
theorem keeps_ungated {job : FlashM α}
    {f : StoreInner Device SyncKey → StoreInner Device SyncKey} (hf : ∀ s, I s → I (f s)) :
    Keeps (fun s : NvsStore Device SyncKey => I s.inner) (do
      writeOperation
      let _ ← run job
      update f) :=
  keeps_writeOperation.bind fun _ => (keeps_run job).bind fun _ => keeps_update hf

end

variable (P)

/-- `get_sync_key` brings a ninth key into the mirror while the latest key, which is spared, is
the only one that the use order puts up for eviction. -/
structure Crowds (s : NvsStore Device SyncKey) (keyId : Bytes) : Prop where
  miss : s.inner.syncKeys.map.lookup keyId = none
  full : s.inner.syncKeys.map.size = 8
  oldest : s.inner.latestSyncKeyId ≠ none ∧ s.inner.syncKeys.order.head? = s.inner.latestSyncKeyId
  stored : ∃ key, (loadSyncKey P keyId s.flash).1 = .ok (some key)

/-- The call is a `get_sync_key` that crowds the latest key. -/
def Call.Crowds : {α : Type} → Call Device SyncKey α → NvsStore Device SyncKey → Prop
  | _, .getSyncKey keyId, s => WhatsappEsp32.Crowds P s keyId
  | _, _, _ => False

/-- The sync-key mirror is full, and the latest key is the least recently used one. -/
def LatestOldest (s : StoreInner Device SyncKey) : Prop :=
  s.syncKeys.map.size = 8 ∧ s.latestSyncKeyId ≠ none ∧ s.syncKeys.order.head? = s.latestSyncKeyId
  deriving Decidable

variable {P}

theorem Call.Crowds.latestOldest {call : Call Device SyncKey α} {s : NvsStore Device SyncKey}
    (h : call.Crowds P s) : LatestOldest s.inner := by
  cases call with
  | getSyncKey keyId => exact ⟨h.full, h.oldest⟩
  | _ => exact h.elim

namespace CapsOk

/-- The cap holds after a key came in, unless it crowds the latest key. -/
theorem mirrorSyncKey (h : CapsOk s) (hpsram : P.hasPsram = false) {keyId : Bytes} (key : SyncKey)
    (hspared : ∀ latest, s.latestSyncKeyId = some latest →
      latest ∉ (s.syncKeys.insert keyId key).order.take ((s.syncKeys.insert keyId key).map.size - 8)) :
    CapsOk (s.mirrorSyncKey P keyId key) := by
  obtain ⟨htracks, hsize⟩ :=
    Mirror.enforceCapExcept_spec (h.syncKeys.insert keyId key) s.latestSyncKeyId
  unfold StoreInner.mirrorSyncKey StoreInner.enforceSyncKeysCap StoreInner.enforceSyncKeysCapExcept
  rw [hpsram]
  exact h.with_syncKeys htracks (hsize hspared) s.latestSyncKeyId

/-- `set_sync_key` makes the key it writes the latest one, and the most recently used one. -/
theorem setLatest (h : CapsOk s) (hpsram : P.hasPsram = false) (keyId : Bytes) (key : SyncKey) :
    CapsOk ({ s with latestSyncKeyId := some keyId }.mirrorSyncKey P keyId key) := by
  have hs : CapsOk { s with latestSyncKeyId := some keyId } :=
    h.with_syncKeys h.syncKeys h.within.2.2 (some keyId)
  refine hs.mirrorSyncKey hpsram key ?_
  rintro _ ⟨rfl⟩
  have hmem : keyId ∈ (s.syncKeys.insert keyId key).map.keys := mem_keys_insert.mpr (.inl rfl)
  have hpos : 0 < (s.syncKeys.insert keyId key).map.size := List.length_pos_of_mem hmem
  exact h.syncKeys.insert_last_notMem keyId key (by simp only; omega)

end CapsOk

theorem getSyncKey_hit {st : NvsStore Device SyncKey} {keyId : Bytes} {key : SyncKey}
    (h : st.inner.syncKeys.map.lookup keyId = some key) :
    getSyncKey P keyId st = (.ok (some key),
      { st with inner := { st.inner with syncKeys := st.inner.syncKeys.touch keyId } }) := by
  unfold getSyncKey
  rw [Prog.bind_of_ok (withInner_of h)]
  rfl

theorem getSyncKey_miss {st : NvsStore Device SyncKey} {keyId : Bytes}
    (h : st.inner.syncKeys.map.lookup keyId = none) :
    (getSyncKey P keyId st).2.inner = match (loadSyncKey P keyId st.flash).1 with
      | .ok (some key) => st.inner.mirrorSyncKey P keyId key
      | _ => st.inner := by
  unfold getSyncKey
  rw [Prog.bind_of_ok (withInner_of h)]
  simp only [Prog.bind_run, run, Prog.zoom]
  generalize loadSyncKey P keyId st.flash = r
  obtain ⟨⟨_ | key⟩ | e | _, f⟩ := r <;> rfl

theorem getSyncKey_caps (hpsram : P.hasPsram = false) {st : NvsStore Device SyncKey}
    (hs : CapsOk st.inner) {keyId : Bytes} (h : ¬Crowds P st keyId) :
    CapsOk (getSyncKey P keyId st).2.inner := by
  cases hlookup : st.inner.syncKeys.map.lookup keyId with
  | some key =>
    rw [getSyncKey_hit hlookup]
    have hmem := AList.mem_keys_iff_lookup.mpr ⟨key, hlookup⟩
    exact hs.with_syncKeys (hs.syncKeys.touch hmem) hs.within.2.2 st.inner.latestSyncKeyId
  | none =>
    rw [getSyncKey_miss hlookup]
    split
    · rename_i key hstored
      refine hs.mirrorSyncKey hpsram key fun latest hlatest hmem => h ?_
      obtain ⟨horder, hsize⟩ := hs.syncKeys.insert_of_miss hlookup key
      have hcap := hs.within.2.2
      have hlength := hs.syncKeys.length_eq
      rw [horder, hsize] at hmem
      -- Only a full mirror evicts, and then only its least recently used key.
      have hfull : st.inner.syncKeys.map.size = 8 := by
        by_contra hne
        rw [show st.inner.syncKeys.map.size + 1 - 8 = 0 by omega] at hmem
        simp at hmem
      refine ⟨hlookup, hfull, ⟨by simp [hlatest], ?_⟩, key, hstored⟩
      rw [hfull] at hmem hlength
      obtain ⟨first, rest, hcons⟩ :=
        List.exists_cons_of_length_pos (by omega : 0 < st.inner.syncKeys.order.length)
      rw [hcons] at hmem ⊢
      have hfirst : latest = first := by simpa using hmem
      rw [hlatest, hfirst]
      rfl
    · exact hs

/-- A call that crowds the latest key does leave nine keys in the mirror. -/
theorem getSyncKey_crowded (hpsram : P.hasPsram = false) {st : NvsStore Device SyncKey}
    (hs : CapsOk st.inner) {keyId : Bytes} (h : Crowds P st keyId) :
    (getSyncKey P keyId st).2.inner.syncKeys.map.size = 9 := by
  obtain ⟨key, hkey⟩ := h.stored
  obtain ⟨horder, hsize⟩ := hs.syncKeys.insert_of_miss h.miss key
  obtain ⟨latest, hlatest⟩ := Option.ne_none_iff_exists'.mp h.oldest.1
  have hhead : (st.inner.syncKeys.insert keyId key).order.head? = some latest := by
    rw [horder, List.head?_append, h.oldest.2, hlatest]
    rfl
  rw [h.full] at hsize
  rw [getSyncKey_miss h.miss, hkey]
  simp only [StoreInner.mirrorSyncKey, StoreInner.enforceSyncKeysCap,
    StoreInner.enforceSyncKeysCapExcept, hpsram, hlatest]
  rw [(hs.syncKeys.insert keyId key).enforceCapExcept_oldest hsize hhead]
  exact hsize

theorem putIdentityBody_caps (hpsram : P.hasPsram = false) (address : String) (key : IdentityKey) :
    Keeps (fun s : NvsStore Device SyncKey => CapsOk s.inner) (putIdentityBody P address key) :=
  keeps_gated fun _ hs => hs.mirrorIdentity hpsram address key

theorem putIdentitiesBatch_caps (hpsram : P.hasPsram = false)
    (entries : List (String × IdentityKey)) :
    Keeps (fun s : NvsStore Device SyncKey => CapsOk s.inner) (putIdentitiesBatch P entries) := by
  refine Keeps.ite (fun _ => .pure ()) fun _ => keeps_writeOperation.bind fun _ => ?_
  rw [putIdentities_eq]
  apply keeps_inTurn
  intro entry
  exact putIdentityBody_caps hpsram entry.1 entry.2

theorem putSessionsBatch_caps (hpsram : P.hasPsram = false) (entries : List (String × Bytes)) :
    Keeps (fun s : NvsStore Device SyncKey => CapsOk s.inner) (putSessionsBatch P entries) := by
  refine Keeps.ite (fun _ => .pure ()) fun _ => keeps_writeOperation.bind fun _ => ?_
  rw [putSessions_eq]
  apply keeps_inTurn
  intro entry
  exact keeps_gated fun _ hs => hs.mirrorSession hpsram entry.1 entry.2

theorem putSession_caps (hpsram : P.hasPsram = false) (address : String) (session : Bytes) :
    Keeps (fun s : NvsStore Device SyncKey => CapsOk s.inner) (putSession P address session) := by
  refine Keeps.ite (fun _ => .throw _) fun _ => keeps_writeOperation.bind fun _ => ?_
  refine (keeps_mirrorGate _ _ _ _).bind fun _ => (keeps_run _).bind fun _ => ?_
  refine (Keeps.ofExcept _).bind fun _ => (keeps_run _).bind fun _ => keeps_update fun _ hs => ?_
  exact hs.mirrorSession hpsram address _

theorem loadIdentity_caps (hpsram : P.hasPsram = false) (address : String) :
    Keeps (fun s : NvsStore Device SyncKey => CapsOk s.inner) (loadIdentity P address) := by
  refine keeps_lookup fun mirrored => ?_
  cases mirrored with
  | some key =>
    refine Triple.bind (Triple.modify _ fun s hs => ?_) fun _ => Keeps.pure _
    have hmem := AList.mem_keys_iff_lookup.mpr ⟨key, hs.2⟩
    exact hs.1.with_identities (hs.1.identities.touch hmem) hs.1.within.1
  | none =>
    refine Triple.pre (P := fun s => CapsOk s.inner) ?_ fun _ hs => hs.1
    refine Keeps.bind (keeps_run _) fun loaded => ?_
    cases loaded with
    | none => exact .pure _
    | some bytes =>
      cases hkey : toIdentityKey bytes with
      | none => simpa only [hkey] using Keeps.pure _
      | some key =>
        simp only [hkey]
        exact (keeps_update fun _ hs => hs.mirrorIdentity hpsram address key).bind fun _ => .pure _

theorem getSession_caps (hpsram : P.hasPsram = false) (address : String) :
    Keeps (fun s : NvsStore Device SyncKey => CapsOk s.inner) (getSession P address) := by
  refine keeps_lookup fun mirrored => ?_
  cases mirrored with
  | some session =>
    refine Triple.bind (Triple.modify _ fun s hs => ?_) fun _ => Keeps.pure _
    have hmem := AList.mem_keys_iff_lookup.mpr ⟨session, hs.2⟩
    exact hs.1.with_sessions (hs.1.sessions.touch hmem) hs.1.within.2.1
  | none =>
    refine Triple.pre (P := fun s => CapsOk s.inner) ?_ fun _ hs => hs.1
    refine Keeps.bind (keeps_run _) fun loaded => ?_
    cases loaded with
    | none => exact .pure _
    | some session =>
      exact (keeps_update fun _ hs => hs.mirrorSession hpsram address session).bind fun _ => .pure _

theorem setSyncKey_caps (hpsram : P.hasPsram = false) (keyId : Bytes) (key : SyncKey) :
    Keeps (fun s : NvsStore Device SyncKey => CapsOk s.inner) (setSyncKey P keyId key) := by
  refine keeps_writeOperation.bind fun _ => (keeps_mirrorGate _ _ _ _).bind fun _ => ?_
  cases P.syncKey.toVec key with
  | error e => exact .throw _
  | ok payload =>
    exact (keeps_run _).bind fun _ => keeps_update fun _ hs => hs.setLatest hpsram keyId key

theorem reboot_caps (hpsram : P.hasPsram = false) (st : NvsStore Device SyncKey) :
    CapsOk (reboot P st).2.inner := by
  unfold reboot
  cases hopen : openPartition P st.flash.namespaces st.flash.fates with
  | mk o flash =>
    cases o with
    | ok mirrors => exact (openFlash_caps hpsram).of_ok hopen
    | error e => exact capsOk_empty
    | halted => exact capsOk_empty

/-- Every other call keeps the invariant. -/
theorem exec_caps (hpsram : P.hasPsram = false) (call : Call Device SyncKey α)
    {st : NvsStore Device SyncKey} (hs : CapsOk st.inner) (h : ¬call.Crowds P st) :
    CapsOk (exec P call st).2.inner := by
  have hkeeps : ∀ {β : Type} {p : StoreM Device SyncKey β},
      Keeps (fun s : NvsStore Device SyncKey => CapsOk s.inner) p → CapsOk (p st).2.inner :=
    fun hp => hp.snd hs
  cases call with
  | putIdentity address key =>
    exact hkeeps (keeps_writeOperation.bind fun _ => putIdentityBody_caps hpsram address key)
  | putIdentitiesBatch entries => exact hkeeps (putIdentitiesBatch_caps hpsram entries)
  | loadIdentity address => exact hkeeps (loadIdentity_caps hpsram address)
  | deleteIdentity address =>
    refine hkeeps (keeps_ungated fun s hs => ?_)
    have hsize := (AList.size_erase_le s.identities.map address).trans hs.within.1
    exact hs.with_identities (hs.identities.remove address) hsize
  | putSession address session => exact hkeeps (putSession_caps hpsram address session)
  | putSessionsBatch entries => exact hkeeps (putSessionsBatch_caps hpsram entries)
  | getSession address => exact hkeeps (getSession_caps hpsram address)
  | deleteSession address =>
    refine hkeeps (keeps_ungated fun s hs => ?_)
    have hsize := (AList.size_erase_le s.sessions.map address).trans_eq hs.within.2.1
    exact hs.with_sessions (hs.sessions.remove address) (Nat.le_zero.mp hsize)
  | hasSignalStateForUser user =>
    refine hkeeps ((keeps_withInner _).bind fun _ => .ite (fun _ => .pure _) fun _ => ?_)
    exact .ite (fun _ => .pure _) fun _ => (keeps_run _).bind fun _ => .pure _
  | storePrekey id record =>
    exact hkeeps (keeps_writeOperation.bind fun _ => keeps_gated fun s hs =>
      hs.with_others s.device (s.prekeys.insert id record) s.signedPrekeys s.senderKeys)
  | loadPrekey id => exact hs
  | removePrekey id => exact hkeeps (keeps_ungated fun s hs =>
      hs.with_others s.device (s.prekeys.erase id) s.signedPrekeys s.senderKeys)
  | storeSignedPrekey id record =>
    exact hkeeps (keeps_writeOperation.bind fun _ => keeps_gated fun s hs =>
      hs.with_others s.device s.prekeys (s.signedPrekeys.insert id record) s.senderKeys)
  | loadSignedPrekey id => exact hs
  | removeSignedPrekey id => exact hkeeps (keeps_ungated fun s hs =>
      hs.with_others s.device s.prekeys (s.signedPrekeys.erase id) s.senderKeys)
  | putSenderKey address record =>
    exact hkeeps (keeps_writeOperation.bind fun _ => keeps_gated fun s hs =>
      hs.with_others s.device s.prekeys s.signedPrekeys (s.senderKeys.insert address record))
  | getSenderKey address => exact hs
  | deleteSenderKey address => exact hkeeps (keeps_ungated fun s hs =>
      hs.with_others s.device s.prekeys s.signedPrekeys (s.senderKeys.erase address))
  | setSyncKey keyId key => exact hkeeps (setSyncKey_caps hpsram keyId key)
  -- the only call that can crowd a mirror: a read miss beside the latest key
  | getSyncKey keyId => exact getSyncKey_caps hpsram hs h
  | getLatestSyncKeyId => exact hs
  | save device => exact hkeeps (keeps_ungated fun s hs =>
      hs.with_others (some device) s.prekeys s.signedPrekeys s.senderKeys)
  | listSessions => exact hkeeps (.ite (fun _ => keeps_withInner _) fun _ => keeps_run _)
  | clearSessions => exact hkeeps ((keeps_run _).bind fun _ => (keeps_update fun s hs =>
      hs.with_sessions Mirror.tracks_empty rfl).bind fun _ => .pure _)
  | reset => exact hkeeps ((keeps_run _).bind fun _ => keeps_update fun _ _ => capsOk_empty)
  | sealWrites => exact hs
  | reboot => exact reboot_caps hpsram st

/-! ### Runs -/

variable (P) in
/-- The stores that `open` and any calls lead to, whatever the partition holds and whatever fails,
as long as no call crowds the latest sync key. -/
inductive Uncrowded : NvsStore Device SyncKey → Prop
  | opened (namespaces : Ns → Namespace) (fates : List Fate) {mirrors : StoreInner Device SyncKey}
      {flash : FlashNamespaces} (hopen : openPartition P namespaces fates = (.ok mirrors, flash)) :
      Uncrowded ⟨mirrors, flash, true⟩
  | call {st : NvsStore Device SyncKey} (h : Uncrowded st) {α : Type} (call : Call Device SyncKey α)
      (fates : List Fate) (hcall : ¬call.Crowds P (Machine.withFates st fates)) :
      Uncrowded (exec P call (Machine.withFates st fates)).2

theorem Uncrowded.capsOk (hpsram : P.hasPsram = false) {st : NvsStore Device SyncKey}
    (h : Uncrowded P st) : CapsOk st.inner := by
  induction h with
  | opened _ _ hopen => exact (openFlash_caps hpsram).of_ok hopen
  | call _ call fates hcall ih => exact exec_caps hpsram call ih hcall

/-- Calls none of which finds a full mirror with the latest key up for eviction. -/
theorem Uncrowded.afterCalls {st : NvsStore Device SyncKey} (h : Uncrowded P st)
    (calls : List ((α : Type) × Call Device SyncKey α))
    (hfates : ∀ n < calls.length, (afterCalls P (calls.take n) st).flash.fates = [])
    (hcrowds : ∀ n < calls.length, ¬LatestOldest (afterCalls P (calls.take n) st).inner) :
    Uncrowded P (afterCalls P calls st) := by
  induction calls generalizing st with
  | nil => exact h
  | cons call calls ih =>
    have hst : Machine.withFates st [] = st := Machine.withFates_nil (hfates 0 (by simp))
    have hcall : ¬call.2.Crowds P (Machine.withFates st []) := by
      rw [hst]
      exact fun hc => hcrowds 0 (by simp) hc.latestOldest
    have hnext := h.call call.2 [] hcall
    rw [hst] at hnext
    refine ih hnext (fun n hn => ?_) fun n hn => ?_
    · exact hfates (n + 1) (by simpa using hn)
    · exact hcrowds (n + 1) (by simpa using hn)

/-- Without PSRAM, the caps hold in every run in which no call crowds the latest sync key, and the
next call breaks them exactly if it does. -/
theorem caps_of_uncrowded (hpsram : P.hasPsram = false) {st : NvsStore Device SyncKey}
    (h : Uncrowded P st) :
    WithinCaps st.inner ∧
    ∀ {α : Type} (call : Call Device SyncKey α) (fates : List Fate),
      WithinCaps (exec P call (Machine.withFates st fates)).2.inner ↔
        ¬call.Crowds P (Machine.withFates st fates) := by
  refine ⟨(h.capsOk hpsram).within, fun call fates => ?_⟩
  have hs : CapsOk (Machine.withFates st fates).inner := h.capsOk hpsram
  refine ⟨fun hwithin hcrowds => ?_, fun hcall => ?_⟩
  · cases call with
    | getSyncKey keyId =>
      have hsize := getSyncKey_crowded hpsram hs hcrowds
      have hcap := hwithin.2.2
      change (getSyncKey P keyId (Machine.withFates st fates)).2.inner.syncKeys.map.size ≤ 8 at hcap
      omega
    | _ => exact hcrowds.elim
  · exact (exec_caps hpsram call hs hcall).within

/-- The SHA-256 digests of the one-byte keys 1 to 9. -/
def oneByteDigests : List Bytes :=
  [[75, 245, 18, 47, 52, 69, 84, 197, 59, 222, 46, 187, 140, 210, 183, 227, 209, 96, 10,
      214, 49, 195, 133, 165, 215, 204, 226, 60, 119, 133, 69, 154],
    [219, 193, 180, 201, 0, 255, 228, 141, 87, 91, 93, 165, 198, 56, 4, 1, 37, 246, 93, 176,
      254, 62, 36, 73, 75, 118, 234, 152, 100, 87, 217, 134],
    [8, 79, 237, 8, 185, 120, 175, 77, 125, 25, 106, 116, 70, 168, 107, 88, 0, 158, 99, 107,
      97, 29, 177, 98, 17, 182, 90, 154, 173, 255, 41, 197],
    [229, 45, 156, 80, 140, 80, 35, 71, 52, 77, 140, 7, 173, 145, 203, 214, 6, 138, 252,
      117, 255, 98, 146, 240, 98, 160, 156, 163, 129, 200, 158, 113],
    [231, 123, 154, 154, 233, 227, 11, 13, 189, 182, 245, 16, 162, 100, 239, 157, 231, 129,
      80, 29, 123, 107, 146, 174, 137, 235, 5, 156, 90, 183, 67, 219],
    [103, 88, 110, 152, 250, 210, 125, 160, 185, 150, 139, 192, 57, 161, 239, 52, 201, 57,
      185, 184, 229, 35, 168, 190, 248, 157, 71, 134, 8, 197, 236, 246],
    [202, 53, 135, 88, 246, 210, 126, 108, 244, 82, 114, 147, 121, 119, 167, 72, 253, 136,
      57, 29, 182, 121, 206, 218, 125, 199, 191, 31, 0, 94, 232, 121],
    [190, 234, 215, 121, 148, 207, 87, 51, 65, 236, 23, 181, 139, 191, 126, 179, 77, 39, 17,
      201, 147, 193, 217, 118, 177, 40, 179, 24, 141, 193, 130, 154],
    [43, 76, 52, 47, 84, 51, 235, 229, 145, 161, 218, 119, 224, 19, 209, 183, 36, 117, 86,
      45, 72, 87, 141, 202, 139, 132, 186, 198, 101, 28, 60, 185]]

/-- A board without PSRAM that names the one-byte keys 1 to 9 as the firmware would. -/
def syncBoard : Platform Bytes Bytes :=
  board false fun k => oneByteDigests.getD (k.headD 0 - 1).toNat []

/-- Nine sync keys arrive, and then the old ones are read in turn. -/
def crowdingCalls : List ((α : Type) × Call Bytes Bytes α) :=
  ⟨_, .save [1]⟩ ::
    [1, 2, 3, 4, 5, 6, 7, 8, 9].map (fun i => ⟨_, .setSyncKey [i] [i]⟩) ++
    [1, 2, 3, 4, 5, 6, 7, 8].map (fun i => ⟨_, .getSyncKey [i]⟩)

theorem open_syncBoard :
    openPartition syncBoard emptyPartition [] = (.ok {}, (NvsStore.fresh syncBoard).flash) := rfl

/-- Nine identities are stored, nine sync keys arrive, and all but one of the old keys are read. -/
def fillingCalls : List ((α : Type) × Call Bytes Bytes α) :=
  [1, 2, 3, 4, 5, 6, 7, 8, 9].map (fun i =>
    ⟨_, .putIdentity (String.singleton (Char.ofNat i)) aliceKey⟩) ++ crowdingCalls.dropLast

/-- A store whose mirrors are at their caps. -/
def fullStore : NvsStore Bytes Bytes := afterCalls syncBoard fillingCalls (.fresh syncBoard)

theorem fullStore_uncrowded : Uncrowded syncBoard fullStore :=
  (Uncrowded.opened emptyPartition [] open_syncBoard).afterCalls fillingCalls (by decide +kernel)
    (by decide +kernel)


/-- At the caps one more sync key evicts an old one, and the next read in turn, which finds the
latest key the oldest, breaks the cap. -/
theorem fullStore_at_caps :
    syncBoard.hasPsram = false ∧ Uncrowded syncBoard fullStore ∧
    fullStore.inner.identities.map.size = 8 ∧ fullStore.inner.syncKeys.map.size = 8 ∧
    WithinCaps fullStore.inner ∧
    WithinCaps (exec syncBoard (.setSyncKey [8] [8]) fullStore).2.inner ∧
    ¬WithinCaps (exec syncBoard (.getSyncKey [8]) fullStore).2.inner := by
  obtain ⟨hcaps, hnext⟩ := caps_of_uncrowded rfl fullStore_uncrowded
  have hfates : Machine.withFates fullStore [] = fullStore := Machine.withFates_nil (by decide +kernel)
  have hmiss : fullStore.inner.syncKeys.map.lookup [8] = none := by decide +kernel
  have holdest : LatestOldest fullStore.inner := by decide +kernel
  have hstored : (loadSyncKey syncBoard [8] fullStore.flash).1 = .ok (some [8]) := by
    decide +kernel
  have hcrowds : (Call.getSyncKey [8]).Crowds syncBoard fullStore :=
    ⟨hmiss, holdest.1, holdest.2, [8], hstored⟩
  have hset := hnext (.setSyncKey [8] [8]) []
  have hget := hnext (.getSyncKey [8]) []
  rw [hfates] at hset hget
  refine ⟨rfl, fullStore_uncrowded, by decide +kernel, holdest.1, hcaps, hset.mpr id, ?_⟩
  exact fun hwithin => hget.mp hwithin hcrowds

/-- After the last of the reads the mirror holds nine sync keys. -/
theorem crowded_cap_fails :
    ¬∀ P : Platform Bytes Bytes, P.hasPsram = false → ∀ namespaces fates mirrors flash,
      openPartition P namespaces fates = (.ok mirrors, flash) →
      ∀ calls, WithinCaps (afterCalls P calls ⟨mirrors, flash, true⟩).inner := by
  intro h
  have hwithin := h syncBoard rfl emptyPartition [] {} _ open_syncBoard crowdingCalls
  have hsize : (afterCalls syncBoard crowdingCalls
      ⟨{}, (NvsStore.fresh syncBoard).flash, true⟩).inner.syncKeys.map.size = 9 := by
    decide +kernel
  have hcap := hwithin.2.2
  omega

end WhatsappEsp32
