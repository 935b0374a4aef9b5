import WhatsappEsp32.Admin.Routes
import WhatsappEsp32.Storage.Reopen

/-!
# What the store says of itself

Calls that look at a whole table: the counts of the start page `/`, the list of the sessions, the largest
prekey id and all the signed prekeys.  Without PSRAM two of the tables are mirrored in part only,
and are counted and walked in flash.

* `getMaxPrekeyId`, `loadAllSignedPrekeys`, `load`;
* `Summary`: these agree with the lookups of single records;
* `reachable_summary`: they do in every state that can be reached, whatever was called and wherever
  the power was lost.
-/

namespace WhatsappEsp32

open CrashLogic FlashNamespaces NvsStore Admin

variable {Device SyncKey α : Type}

namespace NvsStore

/-- The largest id of a prekey, or 0. -/
def getMaxPrekeyId : StoreM Device SyncKey UInt32 :=
  withInner fun s => s.prekeys.keys.max?.getD 0

/-- All signed prekeys with their ids. -/
def loadAllSignedPrekeys : StoreM Device SyncKey (List (UInt32 × Bytes)) :=
  withInner fun s => s.signedPrekeys.entries.map fun e => (e.1, e.2)

/-- The device, if one is stored. -/
def load : StoreM Device SyncKey (Option Device) := withInner fun s => s.device

end NvsStore

instance lawfulOrderMaxUInt32 : Std.LawfulOrderMax UInt32 where
  max_le_iff a b c := by
    have h : max a b = if a ≤ b then b else a := rfl
    rw [h]
    split_ifs with hab <;> simp only [UInt32.le_iff_toNat_le] at * <;> omega
  max_eq_or a b := by
    have h : max a b = if a ≤ b then b else a := rfl
    rw [h]
    split_ifs <;> simp

/-! ### Counting -/

/-- A full mirror has an entry for each entry of the map. -/
theorem MirrorOk.size_eq {K V : Type} [DecidableEq K] {mirror : Dict K V} {st : K → Option V}
    (h : MirrorOk True mirror st) : mirror.size = {k | st k ≠ none}.ncard := by
  rw [AList.size_eq_ncard]
  congr 1
  ext k
  rw [Set.mem_ofPred_eq, Set.mem_ofPred_eq, h.lookup_eq, Option.ne_none_iff_exists']

variable {P : Platform Device SyncKey} {w : Weather} {m : Image Device} {latest : Option Bytes}
  {accepting : Bool}

/-- A namespace has one record for each stored address. -/
theorem size_eq_ncard {f : FlashNamespaces} (hf : Shows P w m f) {kind : Kind}
    (hkeys : ∀ k, kind.KeyOk k → ∃ a, k = asBytes a) :
    (f.namespaces (.records kind)).size = {a | m.records kind (asBytes a) ≠ none}.ncard := by
  obtain ⟨addresses, -, hmap, hsound⟩ :=
    addressesOf_eq hf hkeys "" (f.namespaces (.records kind)).keys fun _ h => h
  have hnodup : addresses.Nodup :=
    List.Nodup.of_map (addressName P) (by rw [hmap]; exact AList.keys_nodup _)
  have hmem : ∀ a, a ∈ addresses ↔ m.records kind (asBytes a) ≠ none := by
    refine fun a => ⟨hsound a, fun ha => ?_⟩
    obtain ⟨v, hv⟩ := Option.ne_none_iff_exists'.mp ha
    have hname : addressName P a ∈ addresses.map (addressName P) := by
      rw [hmap]
      exact mem_iterOrder.mp (stored_mem_iterOrder hf hv)
    -- the names of different stored addresses differ
    obtain ⟨a', ha', heq⟩ := List.mem_map.mp hname
    obtain ⟨v', hv'⟩ := Option.ne_none_iff_exists'.mp (hsound a' ha')
    rwa [asBytes_injective (hf.imageOk.name_inj hv' hv heq.symm)]
  rw [AList.ncard_eq_length hnodup hmem, ← List.length_map (f := addressName P), hmap]
  rfl

/-! ### Agreement with the lookups -/

variable (P) in
/-- What the calls about whole tables say is what lookups of single records find. -/
structure Summary (s : NvsStore Device SyncKey) : Prop where
  sessions : (stats P s).sessions = {a | ∃ r, (getSession P a s).1 = .ok (some r)}.ncard
  identities : (stats P s).identities = {a | ∃ r, (loadIdentity P a s).1 = .ok (some r)}.ncard
  prekeys : (stats P s).prekeys = {id | ∃ r, (loadPrekey id s).1 = .ok (some r)}.ncard
  senderKeys : (stats P s).senderKeys = {a | ∃ r, (getSenderKey a s).1 = .ok (some r)}.ncard
  device : (stats P s).deviceExists = true ↔ ∃ device, (load s).1 = .ok (some device)
  listSessions : ∃ addresses, (listSessions P s).1 = .ok addresses ∧ addresses.Nodup ∧
    ∀ a, a ∈ addresses ↔ ∃ r, (getSession P a s).1 = .ok (some r)
  maxPrekeyId : ∃ greatest, (getMaxPrekeyId s).1 = .ok greatest ∧
    (∀ id r, (loadPrekey id s).1 = .ok (some r) → id ≤ greatest) ∧
    ((∃ r, (loadPrekey greatest s).1 = .ok (some r)) ∨
      greatest = 0 ∧ ∀ id, (loadPrekey id s).1 = .ok none)
  signedPrekeys : ∃ records, (loadAllSignedPrekeys s).1 = .ok records ∧
    (records.map Prod.fst).Nodup ∧
    ∀ id r, (id, r) ∈ records ↔ (loadSignedPrekey id s).1 = .ok (some r)

variable {s : NvsStore Device SyncKey}

theorem session_found (hs : Held P w m latest accepting s) (a : String) :
    (∃ r, (getSession P a s).1 = .ok (some r)) ↔ m.records .sessions (asBytes a) ≠ none := by
  rw [answer_of_spec hs (getSession_spec a), Option.ne_none_iff_exists']
  simp [Image.session]

theorem identity_found (hs : Held P w m latest accepting s) (a : String) :
    (∃ r, (loadIdentity P a s).1 = .ok (some r)) ↔ m.records .identities (asBytes a) ≠ none := by
  rw [answer_of_spec hs (loadIdentity_spec a), ← identity_ne_none hs.shows.imageOk,
    Option.ne_none_iff_exists']
  simp

/-- What is counted in flash or in a full mirror. -/
theorem counted_eq (hs : Held P w m latest accepting s) (kind : Kind)
    (hkeys : ∀ k, kind.KeyOk k → ∃ a, k = asBytes a) {V : Type} {mirror : Dict String V}
    {st : String → Option V} (hmirror : MirrorOk (P.hasPsram = true) mirror st)
    (hst : ∀ a, st a ≠ none ↔ m.records kind (asBytes a) ≠ none) :
    (if P.hasPsram then mirror.size else (s.flash.namespaces (.records kind)).size) =
      {a | m.records kind (asBytes a) ≠ none}.ncard := by
  split_ifs with hpsram
  · rw [MirrorOk.size_eq ⟨hmirror.sound, fun _ => hmirror.complete hpsram⟩]
    congr 1
    ext a
    exact hst a
  · exact size_eq_ncard hs.shows hkeys

theorem stats_eq (s : NvsStore Device SyncKey) : stats P s =
    { sessions := if P.hasPsram then s.inner.sessions.map.size
        else (s.flash.namespaces (.records .sessions)).size
      identities := if P.hasPsram then s.inner.identities.map.size
        else (s.flash.namespaces (.records .identities)).size
      prekeys := s.inner.prekeys.size
      senderKeys := s.inner.senderKeys.size
      deviceExists := s.inner.device.isSome } := by
  unfold stats
  simp only [recordCount_eq]

/-- The lookup of a full mirror. -/
theorem found_iff {K : Type} [DecidableEq K] (mirror : StoreInner Device SyncKey → Dict K Bytes)
    (k : K) (r : Bytes) :
    (withInner (fun s => (mirror s).lookup k) s).1 = .ok (some r) ↔
      (mirror s.inner).lookup k = some r := by
  simp [withInner]

theorem Held.summary (hs : Held P w m latest accepting s) : Summary P s where
  sessions := by
    rw [stats_eq]
    refine (counted_eq hs .sessions (fun _ h => h) hs.ram.coherent.sessions
      fun a => Iff.rfl).trans ?_
    congr 1
    ext a
    exact (session_found hs a).symm
  identities := by
    rw [stats_eq]
    refine (counted_eq hs .identities (fun _ h => h) hs.ram.coherent.identities
      (identity_ne_none hs.shows.imageOk)).trans ?_
    congr 1
    ext a
    exact (identity_found hs a).symm
  prekeys := by
    rw [stats_eq]
    refine (AList.size_eq_ncard _).trans (congrArg Set.ncard (Set.ext fun id => ?_))
    exact exists_congr fun r => (found_iff (·.prekeys) id r).symm
  senderKeys := by
    rw [stats_eq]
    refine (AList.size_eq_ncard _).trans (congrArg Set.ncard (Set.ext fun a => ?_))
    exact exists_congr fun r => (found_iff (·.senderKeys) a r).symm
  device := by
    rw [stats_eq, load, withInner]
    simp [Option.isSome_iff_exists]
  listSessions := by
    have hlist := listSessions_spec (P := P) s hs
    generalize NvsStore.listSessions P s = r at hlist
    obtain ⟨addresses | e | _, s'⟩ := r
    · exact ⟨addresses, rfl, hlist.2.1, fun a => (hlist.2.2 a).trans (session_found hs a).symm⟩
    · exact hlist.elim
    · exact hlist.elim
  maxPrekeyId := by
    have hget : (getMaxPrekeyId s).1 = .ok (s.inner.prekeys.keys.max?.getD 0) := rfl
    rw [hget]
    cases hmax : s.inner.prekeys.keys.max? with
    | none =>
      -- no pre-key at all: the answer is 0
      have hempty := AList.keys_eq_nil_iff.mp (List.max?_eq_none_iff.mp hmax)
      have hnone : ∀ id, (loadPrekey id s).1 = .ok none := fun id => by
        simp [loadPrekey, withInner, hempty]
      refine ⟨0, rfl, fun id r hfound => ?_, Or.inr ⟨rfl, hnone⟩⟩
      rw [hnone] at hfound
      cases hfound
    | some greatest =>
      obtain ⟨hmem, hle⟩ := List.max?_eq_some_iff.mp hmax
      obtain ⟨r, hr⟩ := AList.mem_keys_iff_lookup.mp hmem
      refine ⟨greatest, rfl, fun id r' hfound => hle id ?_, Or.inl ⟨r, ?_⟩⟩
      · exact AList.mem_keys_iff_lookup.mpr ⟨r', (found_iff (·.prekeys) id r').mp hfound⟩
      · exact (found_iff (·.prekeys) greatest r).mpr hr
  signedPrekeys := by
    refine ⟨_, rfl, ?_, fun id r => ?_⟩
    · rw [List.map_map]
      exact s.inner.signedPrekeys.keys_nodup
    · rw [loadSignedPrekey, found_iff (·.signedPrekeys), AList.lookup_eq_some, List.mem_map]
      constructor
      · rintro ⟨⟨id', r'⟩, hmem, heq⟩
        cases heq
        exact hmem
      · exact fun hmem => ⟨⟨id, r⟩, hmem, rfl⟩

/-- **What the store says of itself is what it holds**, in every state of a running store: after any
calls and boots, and wherever the power was lost.  The device counts as paired exactly while the
partition holds one. -/
theorem reachable_summary (h : Reachable P (.on s)) :
    Summary P s ∧
    ((stats P s).deviceExists = true ↔ storedDevice P (s.flash.namespaces .device) ≠ none) := by
  obtain ⟨m, latest, accepting, hs⟩ := h.machineOk
  refine ⟨hs.summary, ?_⟩
  have hdevice : s.inner.device = storedDevice P (s.flash.namespaces .device) := by
    rw [hs.ram.coherent.device, ← hs.shows.image_eq]
    rfl
  rw [stats_eq, ← hdevice]
  simp [Option.isSome_iff_ne_none]

/-- A linked store with records of every kind that is counted or listed. -/
def friendsStore : NvsStore Bytes Bytes :=
  afterCalls friendsBoard
    [⟨_, .save [1]⟩, ⟨_, .putIdentity "alice" aliceKey⟩, ⟨_, .putSession "alice" [1, 2]⟩,
      ⟨_, .putSession "bob" [3]⟩, ⟨_, .storePrekey 3 [4]⟩, ⟨_, .storePrekey 7 [5]⟩,
      ⟨_, .storeSignedPrekey 2 [6]⟩, ⟨_, .putSenderKey "group::alice" [7]⟩,
      ⟨_, .deleteSession "alice"⟩]
    (NvsStore.fresh friendsBoard)

theorem reachable_friendsStore : Reachable friendsBoard (.on friendsStore) := by
  have hboot : Reachable friendsBoard (.on (NvsStore.fresh friendsBoard)) :=
    Relation.ReflTransGen.refl.tail (.boot emptyPartition [] nofun)
  have hsave := hboot.call (.save [1]) rfl rfl (a := ()) (by decide +kernel)
  have hidentity := hsave.call (.putIdentity "alice" aliceKey) rfl (by decide +kernel) (a := ())
    (by decide +kernel)
  have hfirst := hidentity.call (.putSession "alice" [1, 2]) rfl (by decide +kernel) (a := ())
    (by decide +kernel)
  have hsecond := hfirst.call (.putSession "bob" [3]) rfl (by decide +kernel) (a := ())
    (by decide +kernel)
  have hprekey := hsecond.call (.storePrekey 3 [4]) rfl (by decide +kernel) (a := ())
    (by decide +kernel)
  have hlarger := hprekey.call (.storePrekey 7 [5]) rfl (by decide +kernel) (a := ())
    (by decide +kernel)
  have hsigned := hlarger.call (.storeSignedPrekey 2 [6]) rfl (by decide +kernel) (a := ())
    (by decide +kernel)
  have hsender := hsigned.call (.putSenderKey "group::alice" [7]) rfl (by decide +kernel) (a := ())
    (by decide +kernel)
  exact hsender.call (.deleteSession "alice") rfl (by decide +kernel) (a := ()) (by decide +kernel)

/-- Its counts, its sessions and its prekeys. -/
theorem friendsStore_summary :
    Reachable friendsBoard (.on friendsStore) ∧ Summary friendsBoard friendsStore ∧
      stats friendsBoard friendsStore = ⟨1, 1, 2, 1, true⟩ ∧
      (listSessions friendsBoard friendsStore).1 = .ok ["bob"] ∧
      (getMaxPrekeyId friendsStore).1 = .ok 7 ∧
      (loadAllSignedPrekeys friendsStore).1 = .ok [(2, [6])] ∧
      storedDevice friendsBoard (friendsStore.flash.namespaces .device) ≠ none := by
  obtain ⟨hsummary, hdevice⟩ := reachable_summary reachable_friendsStore
  have hstats : stats friendsBoard friendsStore = ⟨1, 1, 2, 1, true⟩ := by decide +kernel
  refine ⟨reachable_friendsStore, hsummary, hstats, by decide +kernel, by decide +kernel,
    by decide +kernel, hdevice.mp ?_⟩
  rw [hstats]

end WhatsappEsp32
