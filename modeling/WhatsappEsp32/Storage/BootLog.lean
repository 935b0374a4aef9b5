import WhatsappEsp32.Lib.Newest
import WhatsappEsp32.Storage.Lru

/-!
# The uses of the boot replay

The boot replay with a log of the records that its walks visit and of the sync key that it loads
again.  Without the log it is the replay (`openLogged_erases`), so what holds of its log and its
mirrors holds of every `open`.

* `openLogged`, `openUses`: the logged replay, and the uses it logs;
* `openLogged_lru`: the mirrors it leaves are in the order of those uses;
* `syncWalk_newest`: the newest key by timestamp is mirrored all along, and is the last visited key
  of maximal timestamp;
* `syncWalk_unbounded`: a walk with an unbounded mirror visits the same records.
-/

namespace WhatsappEsp32

open CrashLogic FlashNamespaces NvsStore

variable {Device SyncKey S : Type}

/-! ### The logged replay -/

/-- Records in the order in which they were visited, each with its logical key. -/
abbrev VisitLog := List (Bytes × Bytes)

/-- A visitor that also logs what it visits. -/
def logged (visit : S → Bytes → Bytes → Except StoreError S) (state : S × VisitLog)
    (key value : Bytes) : Except StoreError (S × VisitLog) :=
  (visit state.1 key value).map fun s => (s, state.2 ++ [(key, value)])

/-- The visits of the three walks over capped mirrors, and the key that is loaded after them. -/
structure BootLog where
  identities : VisitLog := []
  sessions : VisitLog := []
  syncKeys : VisitLog := []
  reloaded : Option Bytes := none

/-- The addresses among the logical keys. -/
def addresses (log : VisitLog) : List String := log.filterMap fun e => fromUtf8 e.1

/-- Every visited or reloaded key counts as used. -/
def BootLog.uses (log : BootLog) : Uses where
  identities := addresses log.identities
  sessions := addresses log.sessions
  syncKeys := log.syncKeys.map Prod.fst ++ log.reloaded.toList

variable (P : Platform Device SyncKey)

/-- `resolveLatest`, with the recorded key if it was loaded here. -/
def resolveLogged (inner : StoreInner Device SyncKey) (timestampLatest : Option Bytes) :
    FlashM (StoreInner Device SyncKey × Option Bytes) := do
  let recorded := match ← loadLatestSyncKeyId.attempt with
    | .ok recorded => recorded
    | .error _ => none
  let loaded ← loadRecorded P inner recorded
  let reloaded := recorded.filter fun id =>
    (inner.syncKeys.map.lookup id).isNone && (loaded.syncKeys.map.lookup id).isSome
  let latest := (recorded.filter fun id => (loaded.syncKeys.map.lookup id).isSome).or
    timestampLatest
  pure (keepLatest P { loaded with latestSyncKeyId := latest }, reloaded)

/-- `replay` with its log. -/
def replayLogged (device : Device) : FlashM (StoreInner Device SyncKey × BootLog) := do
  let inner : StoreInner Device SyncKey := { device := some device }
  let (inner, identities) ← visitRecords P (.records .identities) "identity" maxIdentities 32
    (logged (visitIdentity P)) (inner, [])
  let (inner, sessions) ← visitRecords P (.records .sessions) "session" maxSessions
    maxSignalRecordLen (logged (visitSession P)) (inner, [])
  let loaded ← loadRecords P (.records .prekeys) "prekey" maxPrekeys maxSignalRecordLen
  let prekeys ← Prog.ofExcept (insertLoaded (decodeU32Key · "prekey")
    "duplicate prekey record in WhatsApp NVS" ∅ loaded)
  let loaded ← loadRecords P (.records .signedPrekeys) "signed prekey" maxSignedPrekeys
    maxSignalRecordLen
  let signedPrekeys ← Prog.ofExcept (insertLoaded (decodeU32Key · "signed prekey")
    "duplicate signed-prekey record in WhatsApp NVS" ∅ loaded)
  let loaded ← loadRecords P (.records .senderKeys) "sender key" maxSenderKeys maxSignalRecordLen
  let senderKeys ← Prog.ofExcept (insertLoaded (decodeStringKey · "sender key")
    "duplicate sender-key record in WhatsApp NVS" ∅ loaded)
  let inner := { inner with prekeys, signedPrekeys, senderKeys }
  let ((inner, timestampLatest), syncKeys) ← visitRecords P (.records .syncKeys) "sync key"
    maxSyncKeys maxSignalRecordLen (logged (visitSyncKey P)) ((inner, none), [])
  let (inner, reloaded) ← resolveLogged P inner timestampLatest
  pure (inner, ⟨identities, sessions, syncKeys, reloaded⟩)

/-- `openFlash` with its log. -/
def openLogged : FlashM (StoreInner Device SyncKey × BootLog) := do
  completePending P
  match ← loadDevice P with
  | some device => replayLogged P device
  | none => do
    discardOrphans P
    pure ({}, {})

/-- The uses of an `open` that succeeds. -/
def openUses (namespaces : Ns → Namespace) (fates : List Fate) : Uses :=
  match (openLogged P ⟨namespaces, [], fates⟩).1 with
  | .ok (_, log) => log.uses
  | _ => {}

variable {P}

/-! ### Erasing the log -/

theorem visitNames_erases (n : Ns) (label : String) (maxValueLen : ℕ)
    (visit : S → Bytes → Bytes → Except StoreError S) (names : List String) (s : S)
    (log : VisitLog) :
    Erases Prod.fst (visitNames P n label maxValueLen (logged visit) names (s, log))
      (visitNames P n label maxValueLen visit names s) := by
  induction names generalizing s log with
  | nil => exact .pure _ _
  | cons name names ih =>
    refine .bindSame fun entry => ?_
    have hvisit : (logged visit (s, log) entry.1 entry.2).map Prod.fst =
        visit s entry.1 entry.2 := by
      unfold logged
      cases visit s entry.1 entry.2 <;> rfl
    exact .bind (.ofExcept hvisit) fun state => ih state.1 state.2

theorem visitRecords_erases (n : Ns) (label : String) (maxEntries maxValueLen : ℕ)
    (visit : S → Bytes → Bytes → Except StoreError S) (s : S) (log : VisitLog) :
    Erases Prod.fst (visitRecords P n label maxEntries maxValueLen (logged visit) (s, log))
      (visitRecords P n label maxEntries maxValueLen visit s) := by
  refine .bindSame fun names => .ite (.throw _ _) ?_
  exact visitNames_erases n label maxValueLen visit names s log

theorem resolveLogged_erases (inner : StoreInner Device SyncKey) (latest : Option Bytes) :
    Erases Prod.fst (resolveLogged P inner latest) (resolveLatest P inner latest) :=
  .bindSame fun _ => .bindSame fun _ => .pure _ _

theorem replayLogged_erases (device : Device) :
    Erases Prod.fst (replayLogged P device) (replay P device) := by
  refine .bind (visitRecords_erases _ _ _ _ _ _ _) fun _ => ?_
  refine .bind (visitRecords_erases _ _ _ _ _ _ _) fun _ => ?_
  refine .bindSame fun _ => .bindSame fun _ => .bindSame fun _ => .bindSame fun _ =>
    .bindSame fun _ => .bindSame fun _ => ?_
  refine .bind (visitRecords_erases _ _ _ _ _ _ _) fun _ => ?_
  exact (resolveLogged_erases _ _).more fun _ => rfl

/-- Without its log, the logged replay is the replay. -/
theorem openLogged_erases : Erases Prod.fst (openLogged P) (openFlash P) := by
  refine .bindSame fun _ => .bindSame fun device => ?_
  cases device with
  | none => exact .bindSame fun _ => .pure _ _
  | some device => exact replayLogged_erases device

/-! ### The walks -/

theorem logged_ok {visit : S → Bytes → Bytes → Except StoreError S} {state state' : S × VisitLog}
    {k v : Bytes} (h : logged visit state k v = .ok state') :
    ∃ s', visit state.1 k v = .ok s' ∧ state' = (s', state.2 ++ [(k, v)]) := by
  unfold logged at h
  cases hvisit : visit state.1 k v with
  | error e =>
    rw [hvisit] at h
    cases h
  | ok s' =>
    rw [hvisit] at h
    exact ⟨s', rfl, (Except.ok.inj h).symm⟩

theorem addresses_concat (log : VisitLog) {k : Bytes} (v : Bytes) {address : String}
    (h : fromUtf8 k = some address) : addresses (log ++ [(k, v)]) = addresses log ++ [address] := by
  simp [addresses, h]

/-- The identities visited so far are in the order of their visits, and the last one is there. -/
structure IdentityWalk (state : StoreInner Device SyncKey × VisitLog) : Prop where
  lru : LruOk state.1 { identities := addresses state.2 }
  last_mem : ∀ address, (addresses state.2).getLast? = some address →
    address ∈ state.1.identities.map.keys

theorem LruOk.identity_mem {s : StoreInner Device SyncKey} {uses : Uses} (h : LruOk s uses)
    (address : String) (key : IdentityKey) :
    address ∈ (s.mirrorIdentity P address key).identities.map.keys :=
  AList.mem_keys_iff_lookup.mpr
    ⟨key, h.identities.1.lookup_insert_enforceCap P.hasPsram (by decide) address key⟩

theorem visitIdentity_walk (state : StoreInner Device SyncKey × VisitLog) (k v : Bytes)
    (state' : StoreInner Device SyncKey × VisitLog)
    (h : logged (visitIdentity P) state k v = .ok state') (hs : IdentityWalk state) :
    IdentityWalk state' := by
  obtain ⟨s', hvisit, rfl⟩ := logged_ok h
  obtain ⟨address, key, haddress, rfl⟩ := visitIdentity_ok hvisit
  have hlog := addresses_concat state.2 v haddress
  refine ⟨?_, fun last hlast => ?_⟩
  · rw [hlog]
    exact hs.lru.mirrorIdentity address key
  · rw [hlog, List.getLast?_concat, Option.some.injEq] at hlast
    subst hlast
    exact hs.lru.identity_mem address key

/-- The sessions visited so far, after a walk that used `identities`. -/
structure SessionWalk (identities : List String) (state : StoreInner Device SyncKey × VisitLog) :
    Prop where
  lru : LruOk state.1 { identities, sessions := addresses state.2 }
  last_mem : ∀ address, identities.getLast? = some address →
    address ∈ state.1.identities.map.keys

theorem visitSession_walk {identities : List String}
    (state : StoreInner Device SyncKey × VisitLog) (k v : Bytes)
    (state' : StoreInner Device SyncKey × VisitLog)
    (h : logged (visitSession P) state k v = .ok state') (hs : SessionWalk identities state) :
    SessionWalk identities state' := by
  obtain ⟨s', hvisit, rfl⟩ := logged_ok h
  obtain ⟨address, haddress, rfl⟩ := visitSession_ok hvisit
  refine ⟨?_, hs.last_mem⟩
  rw [addresses_concat _ v haddress]
  have hlru := hs.lru.mirrorSession (P := P) address v
  simpa [Uses.append_eq] using hlru

/-! ### The newest sync key -/

variable (P) in
/-- The visited sync keys with their timestamps. -/
def stamped (log : VisitLog) : List (Bytes × ℤ) := log.filterMap fun e =>
  match P.syncKey.fromSlice e.2 with
  | .ok key => some (e.1, P.timestamp key)
  | .error _ => none

theorem stamped_concat (log : VisitLog) (k : Bytes) {v : Bytes} {key : SyncKey}
    (h : P.syncKey.fromSlice v = .ok key) :
    stamped P (log ++ [(k, v)]) = stamped P log ++ [(k, P.timestamp key)] := by
  simp [stamped, h]

variable (P) in
/-- The newest key by timestamp is the newest one visited, and it is mirrored. -/
structure NewestMirrored (mirror : Mirror Bytes SyncKey) (newest : Option Bytes) (log : VisitLog) :
    Prop where
  newest_eq : newest = (Newest.newest (stamped P log)).map Prod.fst
  mirrored : ∀ e, Newest.newest (stamped P log) = some e →
    ∃ key, mirror.map.lookup e.1 = some key ∧ P.timestamp key = e.2

namespace NewestMirrored

variable {mirror : Mirror Bytes SyncKey} {newest : Option Bytes} {log : VisitLog}

theorem nil (mirror : Mirror Bytes SyncKey) : NewestMirrored P mirror none [] := ⟨rfl, nofun⟩

theorem mem_keys (h : NewestMirrored P mirror newest log) {id : Bytes} (hid : newest = some id) :
    id ∈ mirror.map.keys := by
  rw [h.newest_eq, Option.map_eq_some_iff] at hid
  obtain ⟨e, he, rfl⟩ := hid
  obtain ⟨key, hkey, -⟩ := h.mirrored e he
  exact AList.mem_keys_iff_lookup.mpr ⟨key, hkey⟩

/-- The visitor compares with the newest timestamp visited so far. -/
theorem isNewer_eq (h : NewestMirrored P mirror newest log) (key : SyncKey) :
    isNewer P mirror newest key = match Newest.newest (stamped P log) with
      | none => true
      | some e => decide (¬P.timestamp key < e.2) := by
  unfold isNewer
  rw [h.newest_eq]
  cases hnewest : Newest.newest (stamped P log) with
  | none => rfl
  | some e =>
    obtain ⟨latest, hlookup, hstamp⟩ := h.mirrored e hnewest
    simp [hlookup, hstamp]

/-- The visited key becomes the newest one. -/
theorem became {k v : Bytes} {key : SyncKey} (hasPsram : Bool)
    (h : Newest.newest (stamped P (log ++ [(k, v)])) = some (k, P.timestamp key)) :
    NewestMirrored P ((mirror.insert k key).enforceCapExcept hasPsram (some k)) (some k)
      (log ++ [(k, v)]) := by
  refine ⟨by rw [h]; rfl, fun e he => ?_⟩
  rw [h] at he
  obtain rfl : (k, P.timestamp key) = e := Option.some.inj he
  refine ⟨key, ?_, rfl⟩
  rw [Mirror.lookup_spared]
  exact AList.lookup_insert _

/-- One more visit, whatever the cap. -/
theorem visit (h : NewestMirrored P mirror newest log) {k v : Bytes} {key : SyncKey}
    (hkey : P.syncKey.fromSlice v = .ok key) (hmiss : mirror.map.lookup k = none)
    {newest' : Option Bytes}
    (hnewest : newest' = if isNewer P mirror newest key then some k else newest)
    (hasPsram : Bool) :
    NewestMirrored P ((mirror.insert k key).enforceCapExcept hasPsram newest') newest'
      (log ++ [(k, v)]) := by
  rw [h.isNewer_eq] at hnewest
  have hupdate := Newest.newest_concat (stamped P log) (k, P.timestamp key)
  rw [← stamped_concat log k hkey] at hupdate
  cases hheld : Newest.newest (stamped P log) with
  | none =>
    rw [hheld] at hnewest hupdate
    obtain rfl : newest' = some k := hnewest
    exact became hasPsram hupdate
  | some held =>
    rw [hheld] at hnewest hupdate
    by_cases hold : P.timestamp key < held.2
    · -- An older key: the newest one stays, and it is not the key that comes in.
      simp only [Newest.update, if_pos hold] at hupdate
      obtain ⟨latest, hlookup, hstamp⟩ := h.mirrored held hheld
      have hne : held.1 ≠ k := by
        intro heq
        rw [heq, hmiss] at hlookup
        cases hlookup
      obtain rfl : newest' = some held.1 := by
        rw [hnewest, h.newest_eq, hheld]
        simp [hold]
      refine ⟨by rw [hupdate]; rfl, fun e he => ?_⟩
      rw [hupdate] at he
      obtain rfl : held = e := Option.some.inj he
      refine ⟨latest, ?_, hstamp⟩
      rw [Mirror.lookup_spared]
      exact (AList.lookup_insert_ne hne).trans hlookup
    · simp only [Newest.update, if_neg hold] at hupdate
      obtain rfl : newest' = some k := by
        rw [hnewest]
        simp [hold]
      exact became hasPsram hupdate

end NewestMirrored

theorem visitSyncKey_newestMirrored (state : (StoreInner Device SyncKey × Option Bytes) × VisitLog)
    (k v : Bytes) (state' : (StoreInner Device SyncKey × Option Bytes) × VisitLog)
    (h : logged (visitSyncKey P) state k v = .ok state')
    (hs : NewestMirrored P state.1.1.syncKeys state.1.2 state.2) :
    NewestMirrored P state'.1.1.syncKeys state'.1.2 state'.2 := by
  obtain ⟨s', hvisit, rfl⟩ := logged_ok h
  obtain ⟨⟨s, newest⟩, log⟩ := state
  obtain ⟨key, hkey, hmiss⟩ := visitSyncKey_ok hvisit
  simp only at hvisit
  rw [visitSyncKey_eq hkey hmiss rfl] at hvisit
  cases hvisit
  exact hs.visit hkey hmiss rfl P.hasPsram

variable (P) in
/-- The sync keys visited so far, after walks that made the uses `before`. -/
structure SyncWalk (before : Uses)
    (state : (StoreInner Device SyncKey × Option Bytes) × VisitLog) : Prop where
  lru : LruOk { state.1.1 with latestSyncKeyId := state.1.2 }
    (before ++ { syncKeys := state.2.map Prod.fst })
  newest : NewestMirrored P state.1.1.syncKeys state.1.2 state.2
  last_mem : ∀ address, before.identities.getLast? = some address →
    address ∈ state.1.1.identities.map.keys

theorem visitSyncKey_walk {before : Uses}
    (state : (StoreInner Device SyncKey × Option Bytes) × VisitLog) (k v : Bytes)
    (state' : (StoreInner Device SyncKey × Option Bytes) × VisitLog)
    (h : logged (visitSyncKey P) state k v = .ok state') (hs : SyncWalk P before state) :
    SyncWalk P before state' := by
  obtain ⟨s', hvisit, rfl⟩ := logged_ok h
  obtain ⟨⟨s, newest⟩, log⟩ := state
  obtain ⟨key, hkey, hmiss⟩ := visitSyncKey_ok hvisit
  simp only at hvisit
  rw [visitSyncKey_eq hkey hmiss rfl] at hvisit
  cases hvisit
  have hnext := hs.newest.visit hkey hmiss rfl P.hasPsram
  refine ⟨?_, hnext, hs.last_mem⟩
  have hused : before ++ { syncKeys := (log ++ [(k, v)]).map Prod.fst } =
      before ++ { syncKeys := log.map Prod.fst } ++ ({ syncKeys := [k] } : Uses) := by
    simp [Uses.append_eq]
  have hbyUse := (hs.lru.syncKeys.insert k key).enforceCapExcept P.hasPsram
    (if isNewer P s.syncKeys newest key then some k else newest)
  rw [hused]
  exact hs.lru.with_syncKeys hbyUse fun id hid => hnext.mem_keys hid

/-! ### Any part of the walk over the sync keys -/

/-- A walk that succeeds has read and visited its first record, and goes on from there. -/
theorem visitNames_cons_ok {n : Ns} {label : String} {maxValueLen : ℕ}
    {visit : S → Bytes → Bytes → Except StoreError S} {name : String} {names : List String}
    {s s' : S} {f f' : FlashNamespaces}
    (h : visitNames P n label maxValueLen visit (name :: names) s f = (.ok s', f')) :
    ∃ entry f₁ s₁, readRecord P n label maxValueLen name f = (.ok entry, f₁) ∧
      visit s entry.1 entry.2 = .ok s₁ ∧
      visitNames P n label maxValueLen visit names s₁ f₁ = (.ok s', f') := by
  rw [visitNames, Prog.bind_run] at h
  cases hread : readRecord P n label maxValueLen name f with
  | mk o f₁ =>
    rw [hread] at h
    cases o with
    | error e => cases h
    | halted => cases h
    | ok entry =>
      cases hvisit : visit s entry.1 entry.2 with
      | error e =>
        simp only [hvisit] at h
        cases h
      | ok s₁ =>
        simp only [hvisit, Prog.ofExcept_ok_bind] at h
        exact ⟨entry, f₁, s₁, rfl, hvisit, h⟩

/-- The log of a walk is what loading the same records gives. -/
theorem visitNames_log {n : Ns} {label : String} {maxValueLen : ℕ}
    {visit : S → Bytes → Bytes → Except StoreError S} (names : List String) {s : S} {log : VisitLog}
    {f f' : FlashNamespaces} {state' : S × VisitLog}
    (h : visitNames P n label maxValueLen (logged visit) names (s, log) f = (.ok state', f')) :
    ∃ entries, loadNames P n label maxValueLen names f = (.ok entries, f') ∧
      state'.2 = log ++ entries := by
  induction names generalizing s log f with
  | nil =>
    cases h
    exact ⟨[], rfl, by simp⟩
  | cons name names ih =>
    obtain ⟨entry, f₁, state, hread, hvisit, hrest⟩ := visitNames_cons_ok h
    obtain ⟨s₁, -, rfl⟩ := logged_ok hvisit
    obtain ⟨entries, hload, hlog⟩ := ih hrest
    refine ⟨entry :: entries, ?_, ?_⟩
    · rw [loadNames, Prog.bind_of_ok hread, Prog.bind_of_ok hload]
      rfl
    · rw [hlog, List.append_assoc]
      rfl

theorem readRecord_name (n : Ns) (label : String) (maxValueLen : ℕ) (name : String) :
    Returns (fun entry => P.recordName entry.1 = name) (readRecord P n label maxValueLen name) := by
  refine .bindAny fun blob => ?_
  cases blob with
  | none => exact .throw _
  | some record =>
    refine .bindAny fun entry => ?_
    refine Returns.ite (fun _ => .throw _) fun hname => ?_
    exact Returns.ite (fun _ => .throw _) fun _ => .pure (not_not.mp hname)

/-- The same board with PSRAM, where no mirror has a cap. -/
def Platform.unbounded (P : Platform Device SyncKey) : Platform Device SyncKey :=
  { P with hasPsram := true }

theorem readRecord_unbounded (n : Ns) (label : String) (maxValueLen : ℕ) (name : String) :
    readRecord P.unbounded n label maxValueLen name = readRecord P n label maxValueLen name := rfl

theorem loadNames_unbounded (n : Ns) (label : String) (maxValueLen : ℕ) (names : List String) :
    loadNames P.unbounded n label maxValueLen names = loadNames P n label maxValueLen names := by
  induction names with
  | nil => rfl
  | cons name names ih => rw [loadNames, loadNames, ih, readRecord_unbounded]

/-- A walk that succeeds does so with an unbounded mirror too: no logical key comes twice. -/
theorem visitNames_unbounded {label : String} {maxValueLen : ℕ} (names : List String)
    (hnodup : names.Nodup) {state unbounded : StoreInner Device SyncKey × Option Bytes}
    (hfresh : ∀ k ∈ unbounded.1.syncKeys.map.keys, P.recordName k ∉ names)
    {f f' : FlashNamespaces} {state' : StoreInner Device SyncKey × Option Bytes}
    (h : visitNames P (.records .syncKeys) label maxValueLen (visitSyncKey P) names state f =
      (.ok state', f')) :
    ∃ unbounded', visitNames P.unbounded (.records .syncKeys) label maxValueLen
      (visitSyncKey P.unbounded) names unbounded f = (.ok unbounded', f') := by
  induction names generalizing state unbounded f with
  | nil =>
    cases h
    exact ⟨unbounded, rfl⟩
  | cons name names ih =>
    rw [List.nodup_cons] at hnodup
    obtain ⟨entry, f₁, next, hread, hvisit, hrest⟩ := visitNames_cons_ok h
    have hname : P.recordName entry.1 = name := (readRecord_name _ _ _ _).of_ok hread
    obtain ⟨key, hkey, -⟩ := visitSyncKey_ok hvisit
    have hmiss : unbounded.1.syncKeys.map.lookup entry.1 = none := by
      rw [AList.lookup_eq_none, AList.mem_keys]
      exact fun hmem => hfresh entry.1 hmem (hname ▸ List.mem_cons_self)
    obtain ⟨larger, hlarger, hmirror⟩ : ∃ larger,
        visitSyncKey P.unbounded unbounded entry.1 entry.2 = .ok larger ∧
          larger.1.syncKeys = unbounded.1.syncKeys.insert entry.1 key :=
      ⟨_, visitSyncKey_eq (P := P.unbounded) hkey hmiss rfl, rfl⟩
    have hfresh' : ∀ k ∈ larger.1.syncKeys.map.keys, P.recordName k ∉ names := by
      intro k hk
      rw [hmirror] at hk
      rcases mem_keys_insert.mp hk with rfl | hk
      · rw [hname]
        exact hnodup.1
      · exact fun hmem => hfresh k hk (List.mem_cons_of_mem name hmem)
    obtain ⟨unbounded', hrun⟩ := ih hnodup.2 hfresh' hrest
    refine ⟨unbounded', ?_⟩
    rw [visitNames, readRecord_unbounded, Prog.bind_of_ok hread]
    simp only [hlarger, Prog.ofExcept_ok_bind]
    exact hrun

/-- The newest key by timestamp after a walk over some of the records. -/
theorem visitNames_newest {label : String} {maxValueLen : ℕ} {names : List String}
    {base inner : StoreInner Device SyncKey} {newest : Option Bytes} {f f' : FlashNamespaces}
    (h : visitNames P (.records .syncKeys) label maxValueLen (visitSyncKey P) names (base, none) f =
      (.ok (inner, newest), f')) :
    ∃ visited, loadNames P (.records .syncKeys) label maxValueLen names f = (.ok visited, f') ∧
      NewestMirrored P inner.syncKeys newest visited := by
  obtain ⟨⟨state, log⟩, hlogged, hstate⟩ :=
    (visitNames_erases _ _ _ (visitSyncKey P) names (base, none) []).of_ok h
  obtain rfl : state = (inner, newest) := hstate
  obtain ⟨visited, hload, hlog⟩ := visitNames_log names hlogged
  obtain rfl : log = visited := by simpa using hlog
  refine ⟨log, hload, ?_⟩
  have hstart : NewestMirrored P base.syncKeys none [] := .nil base.syncKeys
  exact (visitNames_returns (I := fun state : (_ × Option Bytes) × VisitLog =>
    NewestMirrored P state.1.1.syncKeys state.1.2 state.2) visitSyncKey_newestMirrored names _
    hstart).of_ok hlogged

/-- However far the walk has come, the newest key by timestamp is mirrored and is the last visited
key of maximal timestamp, as it would be with an unbounded mirror. -/
theorem syncWalk_newest {label : String} {maxValueLen : ℕ} {names : List String}
    (hnodup : names.Nodup) {base inner : StoreInner Device SyncKey} (hbase : base.syncKeys = {})
    {newest : Option Bytes} {f f' : FlashNamespaces}
    (h : visitNames P (.records .syncKeys) label maxValueLen (visitSyncKey P) names (base, none) f =
      (.ok (inner, newest), f')) :
    (∀ id, newest = some id → id ∈ inner.syncKeys.map.keys) ∧
    (∃ visited, loadNames P (.records .syncKeys) label maxValueLen names f = (.ok visited, f') ∧
      newest = (Newest.newest (stamped P visited)).map Prod.fst) ∧
    ∃ unbounded, visitNames P.unbounded (.records .syncKeys) label maxValueLen
      (visitSyncKey P.unbounded) names (base, none) f = (.ok (unbounded, newest), f') := by
  obtain ⟨visited, hload, hnewest⟩ := visitNames_newest h
  have hfresh : ∀ k ∈ base.syncKeys.map.keys, P.recordName k ∉ names := by
    rw [hbase]
    exact fun k hk => absurd hk List.not_mem_nil
  obtain ⟨⟨unbounded, newest'⟩, hunbounded⟩ : ∃ unbounded', visitNames P.unbounded
      (.records .syncKeys) label maxValueLen (visitSyncKey P.unbounded) names (base, none) f =
        (.ok unbounded', f') := visitNames_unbounded names hnodup hfresh h
  -- Both walks read the same records, and so they choose the same key.
  obtain ⟨visited', hload', hnewest'⟩ := visitNames_newest hunbounded
  rw [loadNames_unbounded, hload] at hload'
  obtain rfl : visited = visited' := by simpa using hload'
  have hsame : newest = newest' := hnewest.newest_eq.trans hnewest'.newest_eq.symm
  rw [← hsame] at hunbounded
  exact ⟨fun id hid => hnewest.mem_keys hid, ⟨visited, hload, hnewest.newest_eq⟩, unbounded,
    hunbounded⟩

/-! ### The whole replay -/

/-- The recorded key is loaded only if it is not mirrored. -/
theorem loadRecorded_cases (inner : StoreInner Device SyncKey) (recorded : Option Bytes) :
    Returns (fun loaded => loaded = inner ∨ ∃ id key, recorded = some id ∧
      inner.syncKeys.map.lookup id = none ∧
      loaded = { inner with syncKeys := inner.syncKeys.insert id key })
      (loadRecorded P inner recorded) := by
  cases recorded with
  | none => exact .pure (.inl rfl)
  | some id =>
    refine Returns.ite (fun _ => .pure (.inl rfl)) fun hmiss => ?_
    refine .bindAny fun loaded => ?_
    rcases loaded with e | ⟨_ | key⟩
    · exact .pure (.inl rfl)
    · exact .pure (.inl rfl)
    · exact .pure (.inr ⟨id, key, rfl, by simpa using hmiss, rfl⟩)

/-- What `keepLatest` does to the mirror: nothing, or only the latest key stays. -/
theorem keepLatest_cases (s : StoreInner Device SyncKey) (h : s.syncKeys.Tracks)
    (hlatest : ∀ id, s.latestSyncKeyId = some id → id ∈ s.syncKeys.map.keys) :
    (keepLatest P s).syncKeys.Tracks ∧
    Mirror.EvictsOldest (if !P.hasPsram ∧ s.syncKeys.map.size > 8 then s.syncKeys.map.size else 0)
      s.latestSyncKeyId s.syncKeys (keepLatest P s).syncKeys := by
  unfold keepLatest
  by_cases hover : (!P.hasPsram) = true ∧ s.syncKeys.map.size > 8
  · rw [if_pos hover, if_pos hover]
    have htake : s.syncKeys.order.take s.syncKeys.map.size = s.syncKeys.order :=
      List.take_of_length_le h.length_eq.le
    have hdrop : s.syncKeys.order.drop s.syncKeys.map.size = [] :=
      List.drop_of_length_le h.length_eq.le
    cases hid : s.latestSyncKeyId with
    | none =>
      have hempty : (s.syncKeys.map.retain fun k _ => decide (some k = none)) = ∅ :=
        AList.retain_false _
      simp only
      rw [hempty]
      exact ⟨Mirror.tracks_empty, by simp [hdrop], fun k => by simp⟩
    | some latest =>
      have htracks := Mirror.tracks_latest (hlatest latest hid)
      have hmem := h.mem_iff.mpr (hlatest latest hid)
      refine ⟨htracks, ?_, fun k => ?_⟩
      · have hfilter := List.filter_eq (l := s.syncKeys.order) latest
        rw [List.count_eq_one_of_mem h.nodup hmem] at hfilter
        rw [htake, hdrop, List.append_nil]
        simpa [LruOrder.touched] using hfilter.symm
      · by_cases hk : k = latest
        · cases hlookup : s.syncKeys.map.lookup k <;>
            simp [AList.lookup_retain, LruOrder.touched, hk, hlookup]
        · simp [AList.lookup_retain, LruOrder.touched, hk]
  · rw [if_neg hover, if_neg hover]
    exact ⟨h, Mirror.evictsOldest_refl h _⟩

theorem LruOk.keepLatest {s : StoreInner Device SyncKey} {uses : Uses} (h : LruOk s uses) :
    LruOk (keepLatest P s) uses ∧ (keepLatest P s).identities = s.identities := by
  obtain ⟨htracks, hevicts⟩ := keepLatest_cases (P := P) s h.syncKeys.1 h.latest_mem
  have hothers : NvsStore.keepLatest P s =
      { s with syncKeys := (NvsStore.keepLatest P s).syncKeys } := by
    unfold NvsStore.keepLatest
    split_ifs <;> rfl
  have hbyUse := h.syncKeys.2.sublist hevicts.order_sublist
  generalize (NvsStore.keepLatest P s).syncKeys = m at htracks hevicts hothers hbyUse
  rw [hothers]
  refine ⟨⟨h.identities, h.sessions, ⟨htracks, hbyUse⟩, fun id hid => ?_⟩, rfl⟩
  rw [hid] at hevicts
  have hmem := h.syncKeys.1.mem_iff.mpr (h.latest_mem id hid)
  exact htracks.mem_iff.mp (hevicts.spared_mem_order hmem)

/-- The recorded key comes last if it is loaded here, and one of the two candidates is latest. -/
theorem resolveLogged_lru {before : Uses} {inner : StoreInner Device SyncKey}
    {newest : Option Bytes} {log : VisitLog} (h : SyncWalk P before ((inner, newest), log)) :
    Returns (fun r => LruOk r.1 (before ++ { syncKeys := log.map Prod.fst ++ r.2.toList }) ∧
      r.1.identities = inner.identities) (resolveLogged P inner newest) := by
  refine .bindAny fun marker => ?_
  generalize hrecorded : (match marker with
    | .ok recorded => recorded
    | .error _ => none : Option Bytes) = recorded
  refine .bind (loadRecorded_cases inner recorded) fun loaded hloaded => .pure ?_
  -- whichever id is taken, its key is in the mirror
  have hlatest : ∀ id, (recorded.filter fun id => (loaded.syncKeys.map.lookup id).isSome).or
      newest = some id → id ∈ loaded.syncKeys.map.keys := by
    intro id hid
    rcases Option.or_eq_some_iff.mp hid with hid | ⟨-, hid⟩
    · rw [Option.filter_eq_some_iff, Option.isSome_iff_exists] at hid
      exact AList.mem_keys_iff_lookup.mpr hid.2
    · have hmem := h.newest.mem_keys hid
      obtain rfl | ⟨id', key, -, -, rfl⟩ := hloaded
      · exact hmem
      · exact mem_keys_insert.mpr (.inr hmem)
  obtain rfl | ⟨id, key, rfl, hmiss, rfl⟩ := hloaded
  · have hnone : (recorded.filter fun id => (loaded.syncKeys.map.lookup id).isNone &&
        (loaded.syncKeys.map.lookup id).isSome) = none := by
      simp [Option.filter_eq_none_iff]
    have hlru : LruOk { loaded with latestSyncKeyId :=
        (recorded.filter fun id => (loaded.syncKeys.map.lookup id).isSome).or newest }
        (before ++ { syncKeys := log.map Prod.fst }) :=
      ⟨h.lru.identities, h.lru.sessions, h.lru.syncKeys, hlatest⟩
    rw [hnone, Option.toList_none, List.append_nil]
    exact hlru.keepLatest
  -- the recorded key had been evicted during the walk and is loaded again, which is a use
  · have hself : (inner.syncKeys.insert id key).map.lookup id = some key := AList.lookup_insert _
    have hsome : ((some id).filter fun id' => (inner.syncKeys.map.lookup id').isNone &&
        ((inner.syncKeys.insert id key).map.lookup id').isSome) = some id := by
      simp [hmiss, hself]
    have hused : before ++ { syncKeys := log.map Prod.fst ++ [id] } =
        before ++ { syncKeys := log.map Prod.fst } ++ ({ syncKeys := [id] } : Uses) := by
      simp [Uses.append_eq]
    simp only [hsome, Option.toList_some]
    rw [hused]
    exact (h.lru.with_syncKeys (h.lru.syncKeys.insert id key) hlatest).keepLatest

/-- The bookkeeping after the replay, and the identity visited last. -/
structure Booted (r : StoreInner Device SyncKey × BootLog) : Prop where
  lru : LruOk r.1 r.2.uses
  last_mem : ∀ address, r.2.uses.identities.getLast? = some address →
    address ∈ r.1.identities.map.keys

theorem replayLogged_booted (device : Device) : Returns Booted (replayLogged P device) := by
  have hstart : IdentityWalk (({ device := some device } : StoreInner Device SyncKey), []) :=
    ⟨(lruOk_empty _).with_others (some device) ∅ ∅ ∅, nofun⟩
  refine .bind (visitRecords_returns visitIdentity_walk hstart) ?_
  rintro ⟨s, identities⟩ hs
  have hstart : SessionWalk (addresses identities) (s, []) := ⟨hs.lru, hs.last_mem⟩
  refine .bind (visitRecords_returns visitSession_walk hstart) ?_
  rintro ⟨s, sessions⟩ hs
  refine .bindAny fun _ => .bindAny fun prekeys => .bindAny fun _ => .bindAny fun signedPrekeys =>
    .bindAny fun _ => .bindAny fun senderKeys => ?_
  have hstart : SyncWalk P { identities := addresses identities, sessions := addresses sessions }
      (({ s with prekeys, signedPrekeys, senderKeys }, none), []) := by
    refine ⟨?_, .nil _, hs.last_mem⟩
    show LruOk _ (_ ++ ({} : Uses))
    rw [Uses.append_empty]
    exact ⟨hs.lru.identities, hs.lru.sessions, hs.lru.syncKeys, nofun⟩
  refine .bind (visitRecords_returns visitSyncKey_walk hstart) ?_
  rintro ⟨⟨s, newest⟩, syncKeys⟩ hs
  refine .bind (resolveLogged_lru hs) ?_
  rintro ⟨s', reloaded⟩ ⟨hlru, hidentities⟩
  refine .pure ⟨?_, fun address haddress => ?_⟩
  · simpa [Uses.append_eq, BootLog.uses] using hlru
  · simp only at hidentities ⊢
    rw [hidentities]
    exact hs.last_mem address haddress

theorem openLogged_booted : Returns Booted (openLogged P) := by
  refine .bindAny fun _ => .bindAny fun device => ?_
  cases device with
  | none => exact .bindAny fun _ => .pure ⟨lruOk_empty _, nofun⟩
  | some device => exact replayLogged_booted device

/-- Every `open` that succeeds leaves the mirrors in the order of the uses it logs. -/
theorem open_booted {namespaces : Ns → Namespace} {fates : List Fate}
    {mirrors : StoreInner Device SyncKey} {flash : FlashNamespaces}
    (h : openPartition P namespaces fates = (.ok mirrors, flash)) :
    LruOk mirrors (openUses P namespaces fates) ∧
    ∀ address, (openUses P namespaces fates).identities.getLast? = some address →
      address ∈ mirrors.identities.map.keys := by
  obtain ⟨⟨s, log⟩, hlogged, rfl⟩ := openLogged_erases.of_ok h
  have hbooted := openLogged_booted.of_ok hlogged
  unfold openUses
  rw [hlogged]
  exact ⟨hbooted.lru, hbooted.last_mem⟩

end WhatsappEsp32
