import WhatsappEsp32.Storage.FlashSpec
import WhatsappEsp32.Storage.Mirror

/-!
# The boot replay

`NvsStore::open` on a partition that keeps the invariant: no validation can fire, the mirrors come
out coherent with the flash, and the latest sync key is the one the marker names when that key is
present, else a key that is present.
-/

namespace WhatsappEsp32

open CrashLogic FlashNamespaces NvsStore

variable {Device SyncKey : Type} {P : Platform Device SyncKey} {w : Weather} {m : Image Device}

/-! ### Walking a namespace -/

/-- Every record of a namespace passes the checks of the boot replay. -/
theorem readRecord_eq {f : FlashNamespaces} (hf : Shows P w m f) {kind : Kind} {maxValueLen : ℕ}
    (hmax : ∀ v, kind.ValueOk P v → v.length ≤ maxValueLen) (label : String) {name : String}
    (hname : name ∈ (f.namespaces (.records kind)).keys) :
    ∃ k v, name = P.recordName k ∧ m.records kind k = some v ∧
      readRecord P (.records kind) label maxValueLen name f = (.ok (k, v), f) := by
  obtain ⟨k, v, rfl, hs⟩ := (hf.nsOk kind).mem_keys_iff.mp hname
  obtain ⟨hl, hk, -, hv⟩ := (hf.nsOk kind).lookup_of_stored hs
  have hlen := hmax v hv
  have hread : readBlob (.records kind) (P.recordName k)
      (recordHeaderLen + maxLogicalKeyLen + maxValueLen) f =
      (.ok ((f.namespaces (.records kind)).lookup (P.recordName k)), f) := by
    apply readBlob_eq
    intro d hd
    rw [hl] at hd
    cases hd
    rw [record_length, recordHeaderLen]
    omega
  refine ⟨k, v, rfl, by rw [hf.records_eq]; exact hs, ?_⟩
  rw [readRecord, Prog.bind_of_ok hread, hl]
  simp only [decodeRecord_record hk, Prog.ofExcept_ok_bind]
  rw [if_neg (by simp), if_neg (by omega)]
  rfl

/-- The names a walk goes through: each once, and all of them. -/
theorem iterOrder_nodup (content : Namespace) : (P.iterOrder content.keys).Nodup :=
  (P.iterOrder_perm _).nodup_iff.mpr content.keys_nodup

theorem mem_iterOrder {content : Namespace} {name : String} :
    name ∈ P.iterOrder content.keys ↔ name ∈ content.keys := (P.iterOrder_perm _).mem_iff

theorem iterOrder_length_le {f : FlashNamespaces} (hf : Shows P w m f) (kind : Kind) :
    (P.iterOrder (f.namespaces (.records kind)).keys).length ≤ kind.maxEntries := by
  rw [(P.iterOrder_perm _).length_eq]
  exact (hf.nsOk kind).size_le

theorem stored_mem_iterOrder {f : FlashNamespaces} (hf : Shows P w m f) {kind : Kind} {k v : Bytes}
    (h : m.records kind k = some v) :
    P.recordName k ∈ P.iterOrder (f.namespaces (.records kind)).keys := by
  rw [hf.records_eq] at h
  exact mem_iterOrder.mpr ((hf.nsOk kind).mem_keys_iff.mpr ⟨k, v, rfl, h⟩)

section Visit

variable {S : Type} {kind : Kind} {maxValueLen : ℕ}
  {visit : S → Bytes → Bytes → Except StoreError S} {I : List String → S → Prop}

/-- A walk keeps a loop invariant that each visit carries over one more name. -/
theorem visitNames_eq {f : FlashNamespaces} (hf : Shows P w m f)
    (hmax : ∀ v, kind.ValueOk P v → v.length ≤ maxValueLen) (label : String)
    (hstep : ∀ seen s k v, I seen s → P.recordName k ∉ seen → m.records kind k = some v →
      ∃ s', visit s k v = .ok s' ∧ I (seen ++ [P.recordName k]) s')
    (names seen : List String) (s : S) (hnd : (seen ++ names).Nodup)
    (hsub : ∀ name ∈ names, name ∈ (f.namespaces (.records kind)).keys) (hI : I seen s) :
    ∃ s', visitNames P (.records kind) label maxValueLen visit names s f = (.ok s', f) ∧
      I (seen ++ names) s' := by
  induction names generalizing seen s with
  | nil => exact ⟨s, rfl, by simpa using hI⟩
  | cons name names ih =>
    obtain ⟨k, v, rfl, hs, hread⟩ := readRecord_eq hf hmax label (hsub name (by simp))
    have hnotin : P.recordName k ∉ seen := fun hmem =>
      (List.nodup_append.mp hnd).2.2 _ hmem _ (by simp) rfl
    obtain ⟨s', hvisit, hI'⟩ := hstep seen s k v hI hnotin hs
    have hnd' : ((seen ++ [P.recordName k]) ++ names).Nodup := by simpa using hnd
    obtain ⟨s'', hrun, hI''⟩ := ih (seen ++ [P.recordName k]) s' hnd'
      (fun n hn => hsub n (by simp [hn])) hI'
    refine ⟨s'', ?_, by simpa using hI''⟩
    rw [visitNames, Prog.bind_of_ok hread]
    simp only [hvisit, Prog.ofExcept_ok_bind]
    exact hrun

theorem visitRecords_spec (hmax : ∀ v, kind.ValueOk P v → v.length ≤ maxValueLen) (label : String)
    (s : S) (hI : I [] s)
    (hstep : ∀ seen s k v, I seen s → P.recordName k ∉ seen → m.records kind k = some v →
      ∃ s', visit s k v = .ok s' ∧ I (seen ++ [P.recordName k]) s') :
    Triple (Shows P w m)
      (visitRecords P (.records kind) label kind.maxEntries maxValueLen visit s)
      (fun s f => Shows P w m f ∧ ∃ names, I names s ∧
        ∀ name, name ∈ names ↔ ∃ k v, name = P.recordName k ∧ m.records kind k = some v)
      (fun _ _ => False) (fun _ => False) := by
  refine Triple.bindRead fun f hf => ⟨_, recordNames_eq _ _, ?_⟩
  have hlen := iterOrder_length_le hf kind
  rw [if_neg (by omega)]
  obtain ⟨s', hrun, hI'⟩ := visitNames_eq hf hmax label hstep
    (P.iterOrder (f.namespaces (.records kind)).keys) [] s (by simpa using iterOrder_nodup _)
    (fun _ => mem_iterOrder.mp) hI
  refine Triple.ofRun ?_
  rw [hrun]
  refine ⟨hf, _, hI', fun name => ?_⟩
  rw [List.nil_append, mem_iterOrder, (hf.nsOk kind).mem_keys_iff, hf.records_eq]

end Visit

/-- What `load_records` collects: the stored records, each name once. -/
structure Loaded (P : Platform Device SyncKey) (kind : Kind) (m : Image Device)
    (entries : List (Bytes × Bytes)) : Prop where
  sound : ∀ e ∈ entries, m.records kind e.1 = some e.2
  nodup : (entries.map fun e => P.recordName e.1).Nodup

theorem loadNames_eq {f : FlashNamespaces} (hf : Shows P w m f) {kind : Kind} {maxValueLen : ℕ}
    (hmax : ∀ v, kind.ValueOk P v → v.length ≤ maxValueLen) (label : String) (names : List String)
    (hsub : ∀ name ∈ names, name ∈ (f.namespaces (.records kind)).keys) :
    ∃ entries, loadNames P (.records kind) label maxValueLen names f = (.ok entries, f) ∧
      (∀ e ∈ entries, m.records kind e.1 = some e.2) ∧
      entries.map (fun e => P.recordName e.1) = names := by
  induction names with
  | nil => exact ⟨[], rfl, by simp, rfl⟩
  | cons name names ih =>
    obtain ⟨k, v, rfl, hs, hread⟩ := readRecord_eq hf hmax label (hsub name (by simp))
    obtain ⟨entries, hrun, hsound, hmap⟩ := ih fun n hn => hsub n (by simp [hn])
    refine ⟨(k, v) :: entries, ?_, ?_, by simp [hmap]⟩
    · rw [loadNames, Prog.bind_of_ok hread, Prog.bind_of_ok hrun]
      rfl
    · intro e he
      rcases List.mem_cons.mp he with rfl | he
      · exact hs
      · exact hsound e he

theorem loadRecords_spec {kind : Kind} {maxValueLen : ℕ}
    (hmax : ∀ v, kind.ValueOk P v → v.length ≤ maxValueLen) (label : String) :
    Triple (Shows P w m) (loadRecords P (.records kind) label kind.maxEntries maxValueLen)
      (fun entries f => Shows P w m f ∧ Loaded P kind m entries ∧
        ∀ k v, m.records kind k = some v → P.recordName k ∈ entries.map fun e => P.recordName e.1)
      (fun _ _ => False) (fun _ => False) := by
  refine Triple.bindRead fun f hf => ⟨_, recordNames_eq _ _, ?_⟩
  have hlen := iterOrder_length_le hf kind
  rw [if_neg (by omega)]
  obtain ⟨entries, hrun, hsound, hmap⟩ := loadNames_eq hf hmax label
    (P.iterOrder (f.namespaces (.records kind)).keys) (fun _ => mem_iterOrder.mp)
  refine Triple.ofRun ?_
  rw [hrun]
  refine ⟨hf, ⟨hsound, ?_⟩, ?_⟩
  · rw [hmap]
    exact iterOrder_nodup _
  · intro k v hs
    rw [hmap]
    exact stored_mem_iterOrder hf hs

/-- What the invariant of the flash says about its content. -/
structure ImageOk (P : Platform Device SyncKey) (m : Image Device) : Prop where
  keyOk : ∀ {kind k v}, m.records kind k = some v → kind.KeyOk k
  valueOk : ∀ {kind k v}, m.records kind k = some v → kind.ValueOk P v
  /-- Two stored keys with the same name are the same key. -/
  name_inj : ∀ {kind k v k' v'}, m.records kind k = some v → m.records kind k' = some v' →
    P.recordName k' = P.recordName k → k' = k

theorem Shows.imageOk {f : FlashNamespaces} (hf : Shows P w m f) : ImageOk P m where
  keyOk {kind _ _} h := by
    rw [hf.records_eq] at h
    exact ((hf.nsOk kind).lookup_of_stored h).2.2.1
  valueOk {kind _ _} h := by
    rw [hf.records_eq] at h
    exact ((hf.nsOk kind).lookup_of_stored h).2.2.2
  name_inj {kind _ _ _ _} h h' hname := by
    rw [hf.records_eq] at h h'
    obtain ⟨hl, hk, -, -⟩ := (hf.nsOk kind).lookup_of_stored h
    obtain ⟨hl', hk', -, -⟩ := (hf.nsOk kind).lookup_of_stored h'
    rw [hname, hl] at hl'
    exact (record_inj hk hk' (Option.some.inj hl')).1.symm

/-- The entries of a kind, inserted one by one into an empty map, give the typed map. -/
theorem insertLoaded_eq {K : Type} [DecidableEq K] {enc : K → Bytes}
    {decodeKey : Bytes → Except StoreError K} (hdec : ∀ id, decodeKey (enc id) = .ok id)
    (henc : Function.Injective enc) (duplicate : String) {kind : Kind}
    (hm : ImageOk P m) (hkeys : ∀ k v, m.records kind k = some v → ∃ id, k = enc id)
    (entries : List (Bytes × Bytes)) (seen : List String) (map : Dict K Bytes)
    (hsound : ∀ e ∈ entries, m.records kind e.1 = some e.2)
    (hnd : (seen ++ entries.map fun e => P.recordName e.1).Nodup)
    (hload : Loading True (fun id => P.recordName (enc id)) seen map
      fun id => m.records kind (enc id)) :
    ∃ map', insertLoaded decodeKey duplicate map entries = .ok map' ∧
      Loading True (fun id => P.recordName (enc id))
        (seen ++ entries.map fun e => P.recordName e.1) map' fun id => m.records kind (enc id) := by
  induction entries generalizing seen map with
  | nil => exact ⟨map, rfl, by simpa using hload⟩
  | cons e entries ih =>
    obtain ⟨k, v⟩ := e
    have hs : m.records kind k = some v := hsound (k, v) (by simp)
    obtain ⟨id, rfl⟩ := hkeys k v hs
    have hnotin : P.recordName (enc id) ∉ seen := fun hmem =>
      (List.nodup_append.mp hnd).2.2 _ hmem _ (by simp) rfl
    have hnone : map.lookup id = none := hload.lookup_eq_none hnotin
    have hnext := hload.insert (k := id) (v := v) hs fun id' v' hs' hn =>
      henc (hm.name_inj hs hs' hn)
    obtain ⟨map', hrun, hload'⟩ := ih (seen ++ [P.recordName (enc id)]) (map.insert id v)
      (fun e he => hsound e (by simp [he])) (by simpa using hnd) hnext
    refine ⟨map', ?_, by simpa using hload'⟩
    rw [insertLoaded, hdec]
    change (if (map.lookup id).isSome then _ else _) = _
    rw [hnone]
    exact hrun

/-! ### The visitors -/

@[simp] theorem decodeStringKey_asBytes (a label : String) :
    decodeStringKey (asBytes a) label = .ok a := by
  rw [decodeStringKey, fromUtf8_asBytes]

theorem toIdentityKey_of_length {v : Bytes} (h : v.length = 32) :
    toIdentityKey v = some ⟨v, h⟩ := dif_pos h

theorem identity_eq_some {a : String} {key : IdentityKey} :
    m.identity a = some key ↔ m.records .identities (asBytes a) = some key.1 := by
  unfold Image.identity
  constructor
  · intro h
    obtain ⟨v, hv, hkey⟩ := Option.bind_eq_some_iff.mp h
    unfold toIdentityKey at hkey
    split_ifs at hkey
    cases hkey
    exact hv
  · intro h
    rw [h, Option.bind_some, toIdentityKey_of_length key.2]

theorem syncKey_eq_some {k : Bytes} {key : SyncKey} :
    m.syncKey P k = some key ↔
      ∃ v, m.records .syncKeys k = some v ∧ P.syncKey.fromSlice v = .ok key := by
  unfold Image.syncKey
  constructor
  · intro h
    obtain ⟨v, hv, hkey⟩ := Option.bind_eq_some_iff.mp h
    refine ⟨v, hv, ?_⟩
    cases hd : P.syncKey.fromSlice v with
    | error e => rw [hd] at hkey; cases hkey
    | ok key' => rw [hd] at hkey; cases hkey; rfl
  · rintro ⟨v, hv, hd⟩
    rw [hv, Option.bind_some, hd]
    rfl

/-- A stored sync key can be decoded. -/
theorem ImageOk.syncKey_isSome (hm : ImageOk P m) (k : Bytes) :
    (m.syncKey P k).isSome = (m.records .syncKeys k).isSome := by
  cases hs : m.records .syncKeys k with
  | none => simp [Image.syncKey, hs]
  | some v =>
    obtain ⟨-, key, hkey⟩ := hm.valueOk hs
    rw [syncKey_eq_some.mpr ⟨v, hs, hkey⟩]
    rfl

variable (P) in
/-- The name of the record of an address. -/
def addressName (a : String) : String := P.recordName (asBytes a)

variable {base : StoreInner Device SyncKey}

theorem visitIdentity_step (hm : ImageOk P m) (seen : List String)
    (s : StoreInner Device SyncKey) (k v : Bytes)
    (hs : ∃ mirror, s = { base with identities := mirror } ∧
      Loading (P.hasPsram = true) (addressName P) seen mirror.map m.identity)
    (hnotin : P.recordName k ∉ seen) (hrec : m.records .identities k = some v) :
    ∃ s', visitIdentity P s k v = .ok s' ∧ ∃ mirror, s' = { base with identities := mirror } ∧
      Loading (P.hasPsram = true) (addressName P) (seen ++ [P.recordName k]) mirror.map
        m.identity := by
  obtain ⟨mirror, rfl, hload⟩ := hs
  obtain ⟨a, rfl⟩ := hm.keyOk hrec
  have hlen : v.length = 32 := hm.valueOk hrec
  have hid : m.identity a = some ⟨v, hlen⟩ := identity_eq_some.mpr hrec
  have hnone : mirror.map.lookup a = none := hload.lookup_eq_none hnotin
  have hnext := hload.insert hid fun a' key' hs' hn =>
    asBytes_injective (hm.name_inj hrec (identity_eq_some.mp hs') hn)
  refine ⟨_, ?_, (mirror.insert a ⟨v, hlen⟩).enforceCap P.hasPsram 8, rfl, hnext.enforceCap 8⟩
  unfold visitIdentity
  rw [decodeStringKey_asBytes, toIdentityKey_of_length hlen]
  change (if (mirror.map.lookup a).isSome then _ else _) = _
  rw [hnone]
  rfl

theorem visitSession_step (hm : ImageOk P m) (seen : List String)
    (s : StoreInner Device SyncKey) (k v : Bytes)
    (hs : ∃ mirror, s = { base with sessions := mirror } ∧
      Loading (P.hasPsram = true) (addressName P) seen mirror.map m.session)
    (hnotin : P.recordName k ∉ seen) (hrec : m.records .sessions k = some v) :
    ∃ s', visitSession P s k v = .ok s' ∧ ∃ mirror, s' = { base with sessions := mirror } ∧
      Loading (P.hasPsram = true) (addressName P) (seen ++ [P.recordName k]) mirror.map
        m.session := by
  obtain ⟨mirror, rfl, hload⟩ := hs
  obtain ⟨a, rfl⟩ := hm.keyOk hrec
  have hnone : mirror.map.lookup a = none := hload.lookup_eq_none hnotin
  have hnext := hload.insert hrec fun a' v' hs' hn =>
    asBytes_injective (hm.name_inj hrec hs' hn)
  refine ⟨_, ?_, (mirror.insert a v).enforceCap P.hasPsram 0, rfl, hnext.enforceCap 0⟩
  unfold visitSession
  rw [decodeStringKey_asBytes]
  change (if (mirror.map.lookup a).isSome then _ else _) = _
  rw [hnone]
  rfl

/-- The invariant of the sync-key walk: the newest key by timestamp is a stored one, and there is
one as soon as a record has been visited. -/
structure SyncLoading (P : Platform Device SyncKey) (m : Image Device)
    (base : StoreInner Device SyncKey) (seen : List String)
    (state : StoreInner Device SyncKey × Option Bytes) : Prop where
  inner : ∃ mirror, state.1 = { base with syncKeys := mirror } ∧
    Loading (P.hasPsram = true) P.recordName seen mirror.map (m.syncKey P)
  none_iff : state.2 = none ↔ seen = []
  present : ∀ id, state.2 = some id → (m.records .syncKeys id).isSome

theorem visitSyncKey_step (hm : ImageOk P m) (seen : List String)
    (state : StoreInner Device SyncKey × Option Bytes) (k v : Bytes)
    (hs : SyncLoading P m base seen state) (hnotin : P.recordName k ∉ seen)
    (hrec : m.records .syncKeys k = some v) :
    ∃ state', visitSyncKey P state k v = .ok state' ∧
      SyncLoading P m base (seen ++ [P.recordName k]) state' := by
  obtain ⟨s, latest⟩ := state
  obtain ⟨⟨mirror, hmirror, hload⟩, hnone, hpresent⟩ := hs
  simp only at hmirror hnone hpresent
  subst hmirror
  obtain ⟨-, key, hkey⟩ := hm.valueOk hrec
  have hfresh : mirror.map.lookup k = none := hload.lookup_eq_none hnotin
  have hnext := hload.insert (syncKey_eq_some.mpr ⟨v, hrec, hkey⟩) fun k' key' hs' hn => by
    obtain ⟨v', hv', -⟩ := syncKey_eq_some.mp hs'
    exact hm.name_inj hrec hv' hn
  -- whichever key is the newest now, it is stored
  have hlatest : ∀ newer : Bool, (newer = false → latest ≠ none) →
      SyncLoading P m base (seen ++ [P.recordName k])
        (StoreInner.enforceSyncKeysCapExcept P (if newer then some k else latest)
          { base with syncKeys := mirror.insert k key }, if newer then some k else latest) := by
    intro newer hnewer
    refine ⟨⟨_, rfl, hnext.enforceCapExcept _⟩, ?_, ?_⟩
    · cases newer with
      | true => simp
      | false => simpa using hnewer rfl
    · intro id hid
      cases newer with
      | true =>
        cases hid
        rw [hrec]
        rfl
      | false => exact hpresent id hid
  refine ⟨_, ?_, hlatest ((latest.bind mirror.map.lookup).elim true fun l =>
    decide (P.timestamp key ≥ P.timestamp l)) ?_⟩
  · simp only [visitSyncKey, hkey, hfresh]
    cases latest.bind mirror.map.lookup <;> rfl
  · intro hfalse hnil
    rw [hnil] at hfalse
    cases hfalse

variable (P) in
/-- No stored sync key is newer, by the timestamps in the keys. -/
def IsNewest (m : Image Device) (id : Bytes) : Prop :=
  ∃ key, m.syncKey P id = some key ∧
    ∀ k key', m.syncKey P k = some key' → P.timestamp key' ≤ P.timestamp key

/-- The timestamps during the walk: the newest key so far is in the mirror, because the cap spares
it, and no visited key is newer. -/
def NewestSoFar (P : Platform Device SyncKey) (m : Image Device) (seen : List String)
    (state : StoreInner Device SyncKey × Option Bytes) : Prop :=
  ∀ id, state.2 = some id → ∃ key, state.1.syncKeys.map.lookup id = some key ∧
    ∀ k key', m.syncKey P k = some key' → P.recordName k ∈ seen →
      P.timestamp key' ≤ P.timestamp key

theorem visitSyncKey_newest (hm : ImageOk P m) {seen : List String}
    {state state' : StoreInner Device SyncKey × Option Bytes} {k v : Bytes}
    (hvisit : visitSyncKey P state k v = .ok state') (hs : SyncLoading P m base seen state)
    (hnewest : NewestSoFar P m seen state) (hrec : m.records .syncKeys k = some v) :
    NewestSoFar P m (seen ++ [P.recordName k]) state' := by
  obtain ⟨s, latest⟩ := state
  obtain ⟨-, key, hkey⟩ := hm.valueOk hrec
  -- A visited key is this one, or was visited before.
  have hvisited : ∀ k' key', m.syncKey P k' = some key' →
      P.recordName k' ∈ seen ++ [P.recordName k] → key' = key ∨ P.recordName k' ∈ seen := by
    intro k' key' hk' hmem
    rcases List.mem_append.mp hmem with hmem | hmem
    · exact .inr hmem
    · obtain ⟨v', hv', hkey'⟩ := syncKey_eq_some.mp hk'
      have heq : k' = k := hm.name_inj hrec hv' (List.mem_singleton.mp hmem)
      subst heq
      rw [hrec] at hv'
      cases hv'
      rw [hkey] at hkey'
      cases hkey'
      exact .inl rfl
  unfold visitSyncKey at hvisit
  simp only [hkey] at hvisit
  split at hvisit
  · cases hvisit
  rename_i hfresh
  cases hvisit
  intro id hid
  simp only at hid
  simp only [StoreInner.enforceSyncKeysCapExcept, hid, Mirror.lookup_spared]
  cases hlatest : latest with
  | none =>
    rw [hlatest] at hid
    cases hid
    refine ⟨key, AList.lookup_insert _, fun k' key' hk' hmem => ?_⟩
    have hseen : seen = [] := hs.none_iff.mp hlatest
    rcases hvisited k' key' hk' hmem with rfl | hmem
    · exact le_refl _
    · rw [hseen] at hmem
      cases hmem
  | some l =>
    obtain ⟨lkey, hl, hmax⟩ := hnewest l hlatest
    simp only at hl
    simp only [hlatest, Option.bind_some, hl] at hid
    by_cases hnewer : P.timestamp lkey ≤ P.timestamp key
    · rw [decide_eq_true hnewer, if_pos rfl] at hid
      cases hid
      refine ⟨key, AList.lookup_insert _, fun k' key' hk' hmem => ?_⟩
      rcases hvisited k' key' hk' hmem with rfl | hmem
      · exact le_refl _
      · exact (hmax k' key' hk' hmem).trans hnewer
    · rw [decide_eq_false hnewer] at hid
      cases hid
      have hne : id ≠ k := by
        rintro rfl
        rw [hl] at hfresh
        exact hfresh rfl
      refine ⟨lkey, (AList.lookup_insert_ne hne).trans hl, fun k' key' hk' hmem => ?_⟩
      rcases hvisited k' key' hk' hmem with rfl | hmem
      · exact (lt_of_not_ge hnewer).le
      · exact hmax k' key' hk' hmem

/-! ### The latest sync key -/

/-- What the boot makes of the marker: it is trusted when the key it names is present, and the
latest id is missing only if there is no key at all. -/
structure LatestOk (latest : Option Bytes) (m : Image Device) : Prop where
  recorded : ∀ id, m.latestSync = some id → (m.records .syncKeys id).isSome → latest = some id
  none_iff : latest = none ↔ ∀ k, m.records .syncKeys k = none
  present : ∀ id, latest = some id → (m.records .syncKeys id).isSome

variable (P) in
/-- Without a marker that names a stored key, the latest key is the newest one. -/
structure LatestFrom (latest : Option Bytes) (m : Image Device) : Prop extends LatestOk latest m where
  fallback : (∀ id, m.latestSync = some id → m.records .syncKeys id = none) →
    ∀ id, latest = some id → IsNewest P m id

theorem LatestOk.of_marker {newest : Option Bytes}
    (hnone : newest = none ↔ ∀ k, m.records .syncKeys k = none)
    (hpresent : ∀ id, newest = some id → (m.records .syncKeys id).isSome) :
    LatestOk ((m.latestSync.filter fun id => (m.records .syncKeys id).isSome).or newest) m := by
  cases hl : m.latestSync with
  | none =>
    rw [Option.filter_none, Option.none_or]
    exact ⟨by simp [hl], hnone, hpresent⟩
  | some id =>
    by_cases hid : (m.records .syncKeys id).isSome
    · rw [Option.filter_some, if_pos hid, Option.some_or]
      refine ⟨?_, ?_, ?_⟩
      · intro id' hid' _
        rw [hl] at hid'
        exact hid'
      · constructor
        · intro h
          cases h
        · intro h
          rw [h id] at hid
          cases hid
      · intro id' hid'
        cases hid'
        exact hid
    · rw [Option.filter_some, if_neg hid, Option.none_or]
      refine ⟨?_, hnone, hpresent⟩
      intro id' hid' hsome
      rw [hl] at hid'
      cases hid'
      exact absurd hsome hid

theorem LatestFrom.of_marker {newest : Option Bytes}
    (hnone : newest = none ↔ ∀ k, m.records .syncKeys k = none)
    (hpresent : ∀ id, newest = some id → (m.records .syncKeys id).isSome)
    (hnewest : ∀ id, newest = some id → IsNewest P m id) :
    LatestFrom P ((m.latestSync.filter fun id => (m.records .syncKeys id).isSome).or newest) m := by
  refine ⟨LatestOk.of_marker hnone hpresent, fun horphan id hid => hnewest id ?_⟩
  have hfilter : (m.latestSync.filter fun id => (m.records .syncKeys id).isSome) = none := by
    rw [Option.filter_eq_none_iff]
    intro id hmarker
    simp [horphan id hmarker]
  rwa [hfilter, Option.none_or] at hid

theorem loadSyncKey_spec (keyId : Bytes) :
    Triple (Shows P w m) (loadSyncKey P keyId) (fun r f => Shows P w m f ∧ r = m.syncKey P keyId)
      (fun _ _ => False) (fun _ => False) := by
  refine Triple.bind (loadRecord_spec .syncKeys keyId maxSignalRecordLen fun v hv => hv.1) fun r => ?_
  refine Triple.ofState fun f ⟨hf, hr⟩ => ?_
  subst hr
  cases hs : m.records .syncKeys keyId with
  | none => exact Triple.ofRun ⟨hf, by simp [Image.syncKey, hs]⟩
  | some v =>
    obtain ⟨-, key, hkey⟩ := hf.imageOk.valueOk hs
    simp only [hkey]
    exact Triple.ofRun ⟨hf, (syncKey_eq_some.mpr ⟨v, hs, hkey⟩).symm⟩

/-- After `loadRecorded` the mirror has the recorded key exactly when the flash has it. -/
theorem loadRecorded_spec {mirror : Mirror Bytes SyncKey} (hm : ImageOk P m)
    (hmirror : MirrorOk (P.hasPsram = true) mirror.map (m.syncKey P)) (recorded : Option Bytes) :
    Triple (Shows P w m) (loadRecorded P { base with syncKeys := mirror } recorded)
      (fun s f => Shows P w m f ∧ ∃ mirror' : Mirror Bytes SyncKey,
        s = { base with syncKeys := mirror' } ∧
        MirrorOk (P.hasPsram = true) mirror'.map (m.syncKey P) ∧
        ∀ id, recorded = some id →
          (mirror'.map.lookup id).isSome = (m.records .syncKeys id).isSome)
      (fun _ _ => False) (fun _ => False) := by
  cases recorded with
  | none => exact Triple.pure _ fun f hf => ⟨hf, mirror, rfl, hmirror, by simp⟩
  | some keyId =>
    unfold loadRecorded
    simp only
    split_ifs with hhas
    · obtain ⟨key, hkey⟩ := Option.isSome_iff_exists.mp hhas
      refine Triple.pure _ fun f hf => ⟨hf, mirror, rfl, hmirror, ?_⟩
      rintro _ ⟨⟩
      rw [hhas, ← hm.syncKey_isSome, hmirror.sound keyId key hkey]
      rfl
    · refine Triple.bindAttempt (loadSyncKey_spec keyId) (fun e => ?_) fun r => ?_
      · exact Triple.ofState fun f => False.elim
      refine Triple.ofState ?_
      rintro f ⟨hf, rfl⟩
      cases hkey : m.syncKey P keyId with
      | none =>
        refine Triple.ofRun ⟨hf, mirror, rfl, hmirror, ?_⟩
        rintro _ ⟨⟩
        rw [← hm.syncKey_isSome, hkey]
        simpa using hhas
      | some key =>
        refine Triple.ofRun ⟨hf, mirror.insert keyId key, rfl, hmirror.insert_stored hkey, ?_⟩
        rintro _ ⟨⟩
        rw [← hm.syncKey_isSome, hkey]
        simp [Mirror.insert]

/-- Keeping only the latest key is an eviction. -/
theorem keepLatest_syncKeys {s : StoreInner Device SyncKey}
    (h : MirrorOk (P.hasPsram = true) s.syncKeys.map (m.syncKey P)) :
    ∃ mirror : Mirror Bytes SyncKey, keepLatest P s = { s with syncKeys := mirror } ∧
      MirrorOk (P.hasPsram = true) mirror.map (m.syncKey P) := by
  unfold keepLatest
  split_ifs with hover
  · refine ⟨_, rfl, h.shrink (by simpa using hover.1) fun k key hl => ?_⟩
    rw [AList.lookup_retain] at hl
    exact (Option.filter_eq_some_iff.mp hl).1
  · exact ⟨s.syncKeys, rfl, h⟩

theorem resolveLatest_spec (base : StoreInner Device SyncKey) {mirror : Mirror Bytes SyncKey}
    (hm : ImageOk P m)
    (hmirror : MirrorOk (P.hasPsram = true) mirror.map (m.syncKey P)) {newest : Option Bytes}
    (hnone : newest = none ↔ ∀ k, m.records .syncKeys k = none)
    (hpresent : ∀ id, newest = some id → (m.records .syncKeys id).isSome)
    (hnewest : ∀ id, newest = some id → IsNewest P m id) :
    Triple (Shows P w m) (resolveLatest P { base with syncKeys := mirror } newest)
      (fun s f => Shows P w m f ∧ ∃ (mirror' : Mirror Bytes SyncKey) (latest : Option Bytes),
        s = { base with syncKeys := mirror', latestSyncKeyId := latest } ∧
        MirrorOk (P.hasPsram = true) mirror'.map (m.syncKey P) ∧ LatestFrom P latest m)
      (fun _ _ => False) (fun _ => False) := by
  refine Triple.bind (M := fun r f => Shows P w m f ∧ r = .ok m.latestSync)
    (Triple.attempt (loadLatestSyncKeyId_spec.weaken (fun _ => id) ?_ (fun _ _ => False.elim)
      (fun _ => id))) ?_
  · rintro r f ⟨hf, rfl⟩
    exact ⟨hf, rfl⟩
  intro r
  refine Triple.ofState fun f ⟨hf, hr⟩ => ?_
  subst hr
  simp only
  refine Triple.bind ((loadRecorded_spec hm hmirror m.latestSync).pre fun _ hs => hs ▸ hf) ?_
  intro s
  refine Triple.pure _ ?_
  rintro f' ⟨hf', mirror', rfl, hmirror', hsome⟩
  refine ⟨hf', ?_⟩
  have hfilter : (m.latestSync.filter fun id => (mirror'.map.lookup id).isSome) =
      m.latestSync.filter fun id => (m.records .syncKeys id).isSome := by
    cases hl : m.latestSync with
    | none => rfl
    | some id => simp only [Option.filter_some, hsome id hl]
  rw [hfilter]
  obtain ⟨mirror'', heq, hok⟩ := keepLatest_syncKeys (P := P) (m := m) (s := { base with
    syncKeys := mirror'
    latestSyncKeyId :=
      (m.latestSync.filter fun id => (m.records .syncKeys id).isSome).or newest }) hmirror'
  exact ⟨mirror'', _, heq, hok, LatestFrom.of_marker hnone hpresent hnewest⟩

/-! ### Opening -/

/-- The replay of a linked device gives coherent mirrors. -/
theorem replayIdentities_spec (hm : ImageOk P m) (hbase : base.identities = {}) :
    Triple (Shows P w m)
      (visitRecords P (.records .identities) "identity" maxIdentities 32 (visitIdentity P) base)
      (fun s f => Shows P w m f ∧ ∃ mirror : Mirror String IdentityKey,
        s = { base with identities := mirror } ∧
        MirrorOk (P.hasPsram = true) mirror.map m.identity)
      (fun _ _ => False) (fun _ => False) := by
  have hmax : ∀ v, Kind.ValueOk P .identities v → v.length ≤ 32 := fun v hv => le_of_eq hv
  have hnil : ∃ mirror : Mirror String IdentityKey, base = { base with identities := mirror } ∧
      Loading (P.hasPsram = true) (addressName P) [] mirror.map m.identity :=
    ⟨{}, by rw [← hbase], .nil⟩
  refine (visitRecords_spec hmax "identity" base hnil (visitIdentity_step hm)).weaken
    (fun _ => id) ?_ (fun _ _ => id) (fun _ => id)
  rintro s f ⟨hf, names, ⟨mirror, rfl, hload⟩, hall⟩
  exact ⟨hf, mirror, rfl, hload.mirrorOk fun a key hs =>
    (hall _).mpr ⟨_, _, rfl, identity_eq_some.mp hs⟩⟩

theorem replaySessions_spec (hm : ImageOk P m) (hbase : base.sessions = {}) :
    Triple (Shows P w m)
      (visitRecords P (.records .sessions) "session" maxSessions maxSignalRecordLen
        (visitSession P) base)
      (fun s f => Shows P w m f ∧ ∃ mirror : Mirror String Bytes,
        s = { base with sessions := mirror } ∧
        MirrorOk (P.hasPsram = true) mirror.map m.session)
      (fun _ _ => False) (fun _ => False) := by
  have hmax : ∀ v, Kind.ValueOk P .sessions v → v.length ≤ maxSignalRecordLen := fun v hv => hv
  have hnil : ∃ mirror : Mirror String Bytes, base = { base with sessions := mirror } ∧
      Loading (P.hasPsram = true) (addressName P) [] mirror.map m.session :=
    ⟨{}, by rw [← hbase], .nil⟩
  refine (visitRecords_spec hmax "session" base hnil (visitSession_step hm)).weaken
    (fun _ => id) ?_ (fun _ _ => id) (fun _ => id)
  rintro s f ⟨hf, names, ⟨mirror, rfl, hload⟩, hall⟩
  exact ⟨hf, mirror, rfl, hload.mirrorOk fun a v hs =>
    (hall _).mpr ⟨_, v, rfl, hs⟩⟩

theorem replaySyncKeys_spec (hm : ImageOk P m) (hbase : base.syncKeys = {}) :
    Triple (Shows P w m)
      (visitRecords P (.records .syncKeys) "sync key" maxSyncKeys maxSignalRecordLen
        (visitSyncKey P) (base, none))
      (fun state f => Shows P w m f ∧ (∃ mirror : Mirror Bytes SyncKey,
        state.1 = { base with syncKeys := mirror } ∧
        MirrorOk (P.hasPsram = true) mirror.map (m.syncKey P)) ∧
        (state.2 = none ↔ ∀ k, m.records .syncKeys k = none) ∧
        (∀ id, state.2 = some id → (m.records .syncKeys id).isSome) ∧
        ∀ id, state.2 = some id → IsNewest P m id)
      (fun _ _ => False) (fun _ => False) := by
  have hmax : ∀ v, Kind.ValueOk P .syncKeys v → v.length ≤ maxSignalRecordLen := fun v hv => hv.1
  have hnil : SyncLoading P m base [] (base, none) ∧ NewestSoFar P m [] (base, none) :=
    ⟨⟨⟨{}, by rw [← hbase], .nil⟩, by simp, by simp⟩, nofun⟩
  -- one record: the mirror and the candidate for the latest id are kept together
  have hstep : ∀ seen state k v, SyncLoading P m base seen state ∧ NewestSoFar P m seen state →
      P.recordName k ∉ seen → m.records .syncKeys k = some v →
      ∃ state', visitSyncKey P state k v = .ok state' ∧
        SyncLoading P m base (seen ++ [P.recordName k]) state' ∧
        NewestSoFar P m (seen ++ [P.recordName k]) state' := by
    rintro seen state k v ⟨hload, hnewest⟩ hnotin hrec
    obtain ⟨state', hvisit, hload'⟩ := visitSyncKey_step hm seen state k v hload hnotin hrec
    exact ⟨state', hvisit, hload', visitSyncKey_newest hm hvisit hload hnewest hrec⟩
  refine (visitRecords_spec hmax "sync key" (base, none) hnil hstep).weaken
    (fun _ => id) ?_ (fun _ _ => id) (fun _ => id)
  rintro state f ⟨hf, names, ⟨⟨⟨mirror, hmirror, hload⟩, hnone, hpresent⟩, hnewest⟩, hall⟩
  -- the walk has seen every record
  have hseen : ∀ k key, m.syncKey P k = some key → P.recordName k ∈ names := by
    intro k key hs
    obtain ⟨v, hv, -⟩ := syncKey_eq_some.mp hs
    exact (hall _).mpr ⟨k, v, rfl, hv⟩
  refine ⟨hf, ⟨mirror, hmirror, hload.mirrorOk hseen⟩, ?_, hpresent, fun id hid => ?_⟩
  rotate_left
  · obtain ⟨key, hkey, hle⟩ := hnewest id hid
    rw [hmirror] at hkey
    exact ⟨key, (hload.sound id key hkey).1, fun k key' hk => hle k key' hk (hseen k key' hk)⟩
  · rw [hnone]
    constructor
    · rintro rfl k
      cases hs : m.records .syncKeys k with
      | none => rfl
      | some v => exact absurd ((hall _).mpr ⟨k, v, rfl, hs⟩) (by simp)
    · intro hempty
      rw [List.eq_nil_iff_forall_not_mem]
      intro name hname
      obtain ⟨k, v, -, hs⟩ := (hall name).mp hname
      rw [hempty k] at hs
      cases hs

/-- A kind that is loaded whole. -/
theorem bindLoaded {K β : Type} [DecidableEq K] (kind : Kind) (enc : K → Bytes)
    {decodeKey : Bytes → Except StoreError K} (hdec : ∀ id, decodeKey (enc id) = .ok id)
    (henc : Function.Injective enc) (label duplicate : String) (hm : ImageOk P m)
    (hmax : ∀ v, kind.ValueOk P v → v.length ≤ maxSignalRecordLen)
    (hkeys : ∀ k v, m.records kind k = some v → ∃ id, k = enc id)
    {next : Dict K Bytes → FlashM β} {Q : β → FlashNamespaces → Prop}
    (hnext : ∀ map, MirrorOk True map (fun id => m.records kind (enc id)) →
      Triple (Shows P w m) (next map) Q (fun _ _ => False) (fun _ => False)) :
    Triple (Shows P w m)
      (loadRecords P (.records kind) label kind.maxEntries maxSignalRecordLen >>= fun loaded =>
        Prog.ofExcept (insertLoaded decodeKey duplicate ∅ loaded) >>= next)
      Q (fun _ _ => False) (fun _ => False) := by
  refine Triple.bind (loadRecords_spec hmax label) fun entries => ?_
  refine Triple.ofState fun f ⟨hf, hloaded, hall⟩ => ?_
  obtain ⟨map, hrun, hload⟩ := insertLoaded_eq hdec henc duplicate hm hkeys entries [] ∅
    hloaded.sound (by simpa using hloaded.nodup) .nil
  rw [hrun, Prog.ofExcept_ok_bind]
  refine (hnext map (hload.mirrorOk fun id v hs => ?_)).pre fun _ hs => hs ▸ hf
  simpa using hall _ v hs

/-- The replay of a linked device gives coherent mirrors. -/
theorem replay_spec {device : Device} (hdev : m.device = some device) :
    Triple (Shows P w m) (replay P device)
      (fun s f => Shows P w m f ∧ Coherent P s m ∧ LatestFrom P s.latestSyncKeyId m)
      (fun _ _ => False) (fun _ => False) := by
  refine Triple.ofFact (c := ImageOk P m) (fun f hf => hf.imageOk) fun hm => ?_
  refine Triple.bind (replayIdentities_spec hm rfl) fun s => ?_
  refine Triple.ofFact (fun f h => h.2) ?_
  rintro ⟨identities, rfl, hidentities⟩
  refine Triple.bind ((replaySessions_spec hm rfl).pre fun f h => h.1) fun s => ?_
  refine Triple.ofFact (fun f h => h.2) ?_
  rintro ⟨sessions, rfl, hsessions⟩
  refine Triple.pre (P := Shows P w m) ?_ fun f h => h.1
  -- the three uncapped kinds are loaded whole
  refine bindLoaded .prekeys u32ToLeBytes (by simp) u32ToLeBytes_injective _ _ hm
    (fun v hv => hv) (fun k v hs => hm.keyOk hs) fun prekeys hprekeys => ?_
  refine bindLoaded .signedPrekeys u32ToLeBytes (by simp) u32ToLeBytes_injective _ _ hm
    (fun v hv => hv) (fun k v hs => hm.keyOk hs) fun signedPrekeys hsignedPrekeys => ?_
  refine bindLoaded .senderKeys asBytes (by simp) asBytes_injective _ _ hm
    (fun v hv => hv) (fun k v hs => hm.keyOk hs) fun senderKeys hsenderKeys => ?_
  refine Triple.bind (replaySyncKeys_spec hm rfl) ?_
  rintro ⟨s, newest⟩
  refine Triple.ofFact (fun f h => h.2) ?_
  rintro ⟨⟨syncKeys, hs, hsyncKeys⟩, hnone, hpresent, hnewest⟩
  simp only at hs hnone hpresent hnewest
  rw [hs]
  refine (resolveLatest_spec
    { device := some device, identities, sessions, prekeys, signedPrekeys, senderKeys }
    hm hsyncKeys hnone hpresent hnewest).weaken (fun f h => h.1) ?_ (fun _ _ => id) (fun _ => id)
  rintro s f ⟨hf, mirror, latest, rfl, hmirror, hlatest⟩
  exact ⟨hf, ⟨hdev.symm, hidentities, hsessions, hprekeys, hsignedPrekeys, hsenderKeys, hmirror⟩,
    hlatest⟩

/-- The content after a boot: a pending reset is completed, and records no device owns are
discarded. -/
noncomputable def Image.booted (m : Image Device) : Image Device :=
  open Classical in
  if m.resetPending then blank
  else if m.device = none ∧ ∃ kind k, m.records kind k ≠ none then m.clearSignal
  else m

theorem completePending_spec :
    Triple (Shows P w m) (completePending P)
      (fun _ => Shows P w (if m.resetPending then Image.blank else m))
      (fun _ => Broken P w w.mayFail) (Broken P w w.mayCut) := by
  refine Triple.bind (resetPending_spec.weaken (fun _ => id) (fun _ _ => id)
    (fun _ _ => False.elim) (fun _ => False.elim)) fun pending => ?_
  refine Triple.ofFact (fun f h => h.2) ?_
  rintro rfl
  refine Triple.ite (fun hp => ?_) fun hp => ?_
  · rw [if_pos hp]
    exact completeReset_spec.pre fun f h => h.1
  · rw [if_neg hp]
    exact Triple.pure _ fun f h => h.1

theorem anySignalRecords_eq (f : FlashNamespaces) (kinds : List (Kind × String)) :
    ∃ b, anySignalRecords P kinds f = (.ok b, f) ∧
      (b = true ↔ ∃ e ∈ kinds, (f.namespaces (.records e.1)).keys ≠ []) := by
  induction kinds with
  | nil => exact ⟨false, rfl, by simp⟩
  | cons e kinds ih =>
    obtain ⟨kind, label⟩ := e
    have hnames : P.iterOrder (f.namespaces (.records kind)).keys ≠ [] ↔
        (f.namespaces (.records kind)).keys ≠ [] :=
      not_congr (by rw [← List.length_eq_zero_iff, (P.iterOrder_perm _).length_eq,
        List.length_eq_zero_iff])
    rw [anySignalRecords, Prog.bind_of_ok (recordNames_eq _ _)]
    by_cases h : P.iterOrder (f.namespaces (.records kind)).keys ≠ []
    · rw [if_pos h]
      exact ⟨true, rfl, by simpa using Or.inl (hnames.mp h)⟩
    · rw [if_neg h]
      obtain ⟨b, hrun, hb⟩ := ih
      refine ⟨b, hrun, ?_⟩
      rw [hb]
      simp only [List.mem_cons, exists_eq_or_imp]
      exact ⟨Or.inr, fun h' => h'.resolve_left fun hk => h (hnames.mpr hk)⟩

theorem hasSignalRecords_eq (f : FlashNamespaces) :
    ∃ b, hasSignalRecords P f = (.ok b, f) ∧
      (b = true ↔ ∃ kind, (f.namespaces (.records kind)).keys ≠ []) := by
  obtain ⟨b, hrun, hb⟩ := anySignalRecords_eq f signalKinds
  refine ⟨b, hrun, hb.trans ⟨fun ⟨e, _, hk⟩ => ⟨e.1, hk⟩, fun ⟨kind, hk⟩ => ?_⟩⟩
  cases kind <;> simp [signalKinds, hk]

theorem Shows.exists_record_iff {f : FlashNamespaces} (hf : Shows P w m f) :
    (∃ kind, (f.namespaces (.records kind)).keys ≠ []) ↔ ∃ kind k, m.records kind k ≠ none := by
  refine exists_congr fun kind => ?_
  rw [ne_eq, (hf.nsOk kind).keys_eq_nil_iff, hf.records_eq, not_forall]

theorem discardOrphans_spec (hpending : m.resetPending = false) (hdev : m.device = none) :
    Triple (Shows P w m) (discardOrphans P)
      (fun _ => Shows P w m.booted) (fun _ => Broken P w w.mayFail) (Broken P w w.mayCut) := by
  refine Triple.bindRead fun f hf => ?_
  obtain ⟨b, hrun, hb⟩ := hasSignalRecords_eq (P := P) f
  rw [hf.exists_record_iff] at hb
  refine ⟨b, hrun, Triple.ite (fun h => ?_) fun h => ?_⟩
  · have hbooted : m.booted = m.clearSignal := by
      rw [Image.booted, if_neg (by simp [hpending]), if_pos ⟨hdev, hb.mp h⟩]
    rw [hbooted]
    exact eraseSignal_spec.weaken (fun _ hs => hs ▸ hf) (fun _ _ h => h.1) (fun _ _ => id)
      (fun _ => id)
  · have hbooted : m.booted = m := by
      rw [Image.booted, if_neg (by simp [hpending]), if_neg fun hn => h (hb.mpr hn.2)]
    rw [hbooted]
    exact Triple.ofRun hf

/-- A partition without a device and without records mirrors nothing. -/
theorem coherent_empty (hdev : m.device = none) (hrec : ∀ kind k, m.records kind k = none) :
    Coherent P {} m where
  device := hdev.symm
  identities := by
    have h : m.identity = fun _ => none := funext fun a => by simp [Image.identity, hrec]
    rw [h]
    exact .empty
  sessions := by
    have h : m.session = fun _ => none := funext fun a => hrec _ _
    rw [h]
    exact .empty
  prekeys := by
    have h : m.prekey = fun _ => none := funext fun a => hrec _ _
    rw [h]
    exact .empty
  signedPrekeys := by
    have h : m.signedPrekey = fun _ => none := funext fun a => hrec _ _
    rw [h]
    exact .empty
  senderKeys := by
    have h : m.senderKey = fun _ => none := funext fun a => hrec _ _
    rw [h]
    exact .empty
  syncKeys := by
    have h : m.syncKey P = fun _ => none := funext fun a => by simp [Image.syncKey, hrec]
    rw [h]
    exact .empty

theorem Image.booted_of_device_none (hpending : m.resetPending = false) (hdev : m.device = none) :
    m.booted.device = none ∧ ∀ kind k, m.booted.records kind k = none := by
  unfold Image.booted
  rw [if_neg (by simp [hpending])]
  split_ifs with h
  · exact ⟨hdev, fun _ _ => rfl⟩
  · refine ⟨hdev, fun kind k => ?_⟩
    by_contra hk
    exact h ⟨hdev, kind, k, hk⟩

theorem Image.booted_of_device {device : Device} (hpending : m.resetPending = false)
    (hdev : m.device = some device) : m.booted = m := by
  rw [Image.booted, if_neg (by simp [hpending]), if_neg (by simp [hdev])]

/-- **Opening a partition that keeps the invariant.**  No validation fires, and the mirrors come
out coherent with what the flash then holds. -/
theorem openFlash_spec :
    Triple (Shows P w m) (openFlash P)
      (fun s f => Shows P w m.booted f ∧ Coherent P s m.booted ∧
        LatestFrom P s.latestSyncKeyId m.booted)
      (fun _ => Broken P w w.mayFail) (Broken P w w.mayCut) := by
  refine Triple.bind completePending_spec fun _ => ?_
  set m₁ := if m.resetPending then Image.blank else m with hm₁
  have hpending : m₁.resetPending = false := by
    rw [hm₁]
    split_ifs with h
    · rfl
    · simpa using h
  have hbooted : m.booted = m₁.booted := by
    by_cases h : m.resetPending = true
    · rw [hm₁, if_pos h]
      simp [Image.booted, h, Image.blank]
    · rw [hm₁, if_neg h]
  rw [hbooted]
  refine Triple.bind (loadDevice_spec.weaken (fun _ => id) (fun _ _ => id)
    (fun _ _ => False.elim) (fun _ => False.elim)) fun device => ?_
  refine Triple.ofFact (fun f h => h.2) ?_
  rintro rfl
  refine Triple.pre (P := Shows P w m₁) ?_ fun f h => h.1
  cases hdev : m₁.device with
  | some device =>
    rw [Image.booted_of_device hpending hdev]
    exact (replay_spec hdev).weaken (fun _ => id) (fun _ _ => id) (fun _ _ => False.elim)
      (fun _ => False.elim)
  | none =>
    obtain ⟨hdev', hrec⟩ := Image.booted_of_device_none hpending hdev
    refine Triple.bind (discardOrphans_spec hpending hdev) fun _ => Triple.pure _ fun f hf => ?_
    exact ⟨hf, coherent_empty hdev' hrec, ⟨by simp [hrec], by simp [hrec], by simp⟩, nofun⟩

end WhatsappEsp32
