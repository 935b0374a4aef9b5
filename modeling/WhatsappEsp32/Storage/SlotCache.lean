import WhatsappEsp32.Storage.Reopen

/-!
# The cache of validated session slots

`check_record_slot` skips the flash for a session whose slot it has validated before.  This module
shows that the cache never changes a verdict, whatever the partition held when the flash worker
was started and whatever jobs it has run since.

* `Worker`, `Worker.Step`: the flash worker, with the write of a session split into two jobs;
* `CacheOk`: the invariant of the cache, kept by every job, also by one that fails halfway;
* `slotVerdict`: what `check_record_slot` says about a slot without the cache;
* `reachable_cache_transparent`.
-/

namespace WhatsappEsp32

open CrashLogic FlashNamespaces

variable {Device SyncKey α : Type}

/-! ### The worker -/

/-- The jobs that a mutator hands to the worker while it holds the operation lock. -/
inductive MutatorJob (Device : Type)
  | checkRecordSlot (n : Ns) (key : Bytes) (valueLen : ℕ) (label : String) (maxEntries : ℕ)
  | putRecord (n : Ns) (key value : Bytes) (label : String) (maxEntries : ℕ)
  | deleteRecord (n : Ns) (key : Bytes) (label : String)
  | writeSyncKey (keyId payload : Bytes)
  | saveDevice (device : Device)
  | clearSessions
  | eraseSignal
  | eraseAll
  | completeReset
  | resetAll

/-- The flash job of `clear_sessions`. -/
def clearSessionsJob (P : Platform Device SyncKey) : FlashM ℕ := do
  let count ← recordCount (.records .sessions)
  Prog.modify clearSlots
  eraseNamespace P (.records .sessions) "session"
  pure count

/-- What a job does to the flash; its answer is of no interest here. -/
def MutatorJob.exec (P : Platform Device SyncKey) : MutatorJob Device → FlashM Unit
  | checkRecordSlot n key valueLen label maxEntries => do
    let _ ← FlashNamespaces.checkRecordSlot P n key valueLen label maxEntries
  | putRecord n key value label maxEntries =>
    FlashNamespaces.putRecord P n key value label maxEntries
  | deleteRecord n key label => FlashNamespaces.deleteRecord P n key label
  | writeSyncKey keyId payload => NvsStore.writeSyncKey P keyId payload
  | saveDevice device => FlashNamespaces.saveDevice P device
  | clearSessions => do
    let _ ← clearSessionsJob P
  | eraseSignal => FlashNamespaces.eraseSignal P
  | eraseAll => FlashNamespaces.eraseAll P
  | completeReset => FlashNamespaces.completeReset P
  | resetAll => FlashNamespaces.resetAll P

/-- The flash worker.  `prepared` is the checked name and key of a `put_session` that has not
written its record yet. -/
structure Worker where
  flash : FlashNamespaces
  prepared : Option (String × Bytes)

/-- The flash with the script of the primitives of the next job. -/
def FlashNamespaces.withFates (f : FlashNamespaces) (fates : List Fate) : FlashNamespaces :=
  { f with fates := fates }

/-- One job.  The lock that mutators hold keeps them from running between the two jobs of a
`put_session`; the jobs of readers may run there. -/
inductive Worker.Step (P : Platform Device SyncKey) : Worker → Worker → Prop
  | load (f : FlashNamespaces) (prepared : Option (String × Bytes)) (n : Ns) (key : Bytes)
      {maxValueLen : ℕ} (hmax : maxValueLen ≤ maxSignalRecordLen) :
      Step P ⟨f, prepared⟩ ⟨(loadRecord P n key maxValueLen f).2, prepared⟩
  | mutator (f : FlashNamespaces) (fates : List Fate) (job : MutatorJob Device) :
      Step P ⟨f, none⟩ ⟨(job.exec P (f.withFates fates)).2, none⟩
  | prepare (f f' : FlashNamespaces) (key : Bytes) (valueLen : ℕ) (name : String)
      (hcheck : checkRecordSlot P (.records .sessions) key valueLen "session" maxSessions f =
        (.ok name, f')) :
      Step P ⟨f, none⟩ ⟨f', some (name, key)⟩
  | write (f : FlashNamespaces) (fates : List Fate) (name : String) (key : Bytes) {value r : Bytes}
      (hvalue : value.length ≤ maxSignalRecordLen) (hr : encodeRecord key value = .ok r) :
      Step P ⟨f, some (name, key)⟩
        ⟨(setBlob (.records .sessions) name r (f.withFates fates)).2, none⟩
  | abandon (f : FlashNamespaces) (name : String) (key : Bytes) :
      Step P ⟨f, some (name, key)⟩ ⟨f, none⟩

/-- Reached from a worker that has just been started, on any partition. -/
def Worker.Reachable (P : Platform Device SyncKey) (worker : Worker) : Prop :=
  ∃ namespaces fates, Relation.ReflTransGen (Worker.Step P) ⟨⟨namespaces, [], fates⟩, none⟩ worker

/-! ### The invariant -/

/-- The largest record that the store reads. -/
def maxRecordLen : ℕ := recordHeaderLen + maxLogicalKeyLen + maxSignalRecordLen

/-- A record of `key` is stored under `name`. -/
def StoresKey (content : Namespace) (name : String) (key : Bytes) : Prop :=
  ∃ r value, content.lookup name = some r ∧ r.length ≤ maxRecordLen ∧
    decodeRecord r = .ok (key, value)

/-- The cached slots have distinct names and name existing records of their keys. -/
structure CacheOk (f : FlashNamespaces) : Prop where
  names : (f.validatedSessions.map Prod.fst).Nodup
  length_le : f.validatedSessions.length ≤ 8
  stored : ∀ slot ∈ f.validatedSessions,
    StoresKey (f.namespaces (.records .sessions)) slot.1 slot.2

/-- The record of `key` may be written under `name`: no other key has a record there. -/
structure MayWrite (P : Platform Device SyncKey) (f : FlashNamespaces) (name : String)
    (key : Bytes) : Prop where
  name_eq : name = P.recordName key
  length_le : key.length ≤ maxLogicalKeyLen
  own : (f.namespaces (.records .sessions)).lookup name = none ∨
    StoresKey (f.namespaces (.records .sessions)) name key

theorem StoresKey.key_eq {content : Namespace} {name : String} {key key' : Bytes}
    (h : StoresKey content name key) (h' : StoresKey content name key') : key = key' := by
  obtain ⟨r, value, hl, -, hdec⟩ := h
  obtain ⟨r', value', hl', -, hdec'⟩ := h'
  rw [hl, Option.some.injEq] at hl'
  subst hl'
  rw [hdec] at hdec'
  cases hdec'
  rfl

theorem map_fst_eraseP (slots : SessionSlots) (name : String) :
    (slots.eraseP fun slot => slot.1 = name).map Prod.fst = (slots.map Prod.fst).erase name := by
  induction slots with
  | nil => rfl
  | cons slot slots ih =>
    by_cases h : slot.1 = name
    · simp [h]
    · simp [h, ih]

theorem CacheOk.empty {f : FlashNamespaces} (h : f.validatedSessions = []) : CacheOk f := by
  refine ⟨?_, ?_, ?_⟩ <;> rw [h]
  · exact List.nodup_nil
  · exact Nat.zero_le 8
  · exact nofun

/-- The cache depends on nothing but the sessions. -/
theorem CacheOk.frame {f f' : FlashNamespaces} (h : CacheOk f)
    (hslots : f'.validatedSessions = f.validatedSessions)
    (hns : f'.namespaces (.records .sessions) = f.namespaces (.records .sessions)) :
    CacheOk f' := by
  refine ⟨?_, ?_, ?_⟩ <;> rw [hslots]
  · exact h.names
  · exact h.length_le
  · rw [hns]
    exact h.stored

theorem CacheOk.remember {f : FlashNamespaces} (h : CacheOk f) {name : String} {key : Bytes}
    (hstored : StoresKey (f.namespaces (.records .sessions)) name key) :
    CacheOk { f with validatedSessions := f.validatedSessions.remember name key } := by
  have hlen := (List.eraseP_sublist (p := fun slot => slot.1 = name)
    (l := f.validatedSessions)).length_le
  have hold := h.length_le
  -- what the new slot is appended to has other names, and room for one more
  have hrest : ∀ slots : SessionSlots,
      slots.Sublist (f.validatedSessions.eraseP fun slot => slot.1 = name) → slots.length ≤ 7 →
      ((slots ++ [(name, key)]).map Prod.fst).Nodup ∧ (slots ++ [(name, key)]).length ≤ 8 := by
    intro slots hsub hle
    have hnames := hsub.map Prod.fst
    rw [map_fst_eraseP] at hnames
    constructor
    · rw [List.map_append, List.map_cons, List.map_nil]
      refine List.Nodup.append ((h.names.erase name).sublist hnames) (List.nodup_singleton _) ?_
      rw [List.disjoint_singleton]
      exact fun hmem => h.names.not_mem_erase (hnames.subset hmem)
    · rw [List.length_append]
      exact Nat.succ_le_succ hle
  have hnew : ((f.validatedSessions.remember name key).map Prod.fst).Nodup ∧
      (f.validatedSessions.remember name key).length ≤ 8 := by
    unfold SessionSlots.remember
    simp only
    split_ifs with hfull
    · refine hrest _ (List.tail_sublist _) ?_
      rw [List.length_tail]
      omega
    · exact hrest _ (List.Sublist.refl _) (by omega)
  refine ⟨hnew.1, hnew.2, fun slot hslot => ?_⟩
  rcases mem_remember hslot with hold | rfl
  · exact h.stored slot hold
  · exact hstored

/-- Writing a record where it may be written keeps every cached slot. -/
theorem CacheOk.insert {P : Platform Device SyncKey} {f f' : FlashNamespaces} (h : CacheOk f)
    {name : String} {key value : Bytes} (hmay : MayWrite P f name key)
    (hvalue : value.length ≤ maxSignalRecordLen)
    (hslots : f'.validatedSessions = f.validatedSessions)
    (hns : f'.namespaces (.records .sessions) =
      (f.namespaces (.records .sessions)).insert name (record key value)) : CacheOk f' := by
  refine ⟨?_, ?_, ?_⟩ <;> rw [hslots]
  · exact h.names
  · exact h.length_le
  · intro slot hslot
    have hstored := h.stored slot hslot
    rw [hns]
    by_cases hname : slot.1 = name
    · rw [hname] at hstored ⊢
      rcases hmay.own with hnone | hown
      · obtain ⟨r, _, hl, -⟩ := hstored
        rw [hnone] at hl
        cases hl
      · refine ⟨record key value, value, ?_, ?_, ?_⟩
        · rw [AList.lookup_insert_eq, if_pos rfl]
        · rw [record_length, maxRecordLen, recordHeaderLen]
          have := hmay.length_le
          omega
        · rw [hstored.key_eq hown, decodeRecord_record hmay.length_le]
    · obtain ⟨r, value', hl, hle, hdec⟩ := hstored
      exact ⟨r, value', by rw [AList.lookup_insert_eq, if_neg hname, hl], hle, hdec⟩

/-! ### Jobs that keep an invariant -/

section Jobs

variable {K : FlashNamespaces → Prop} {n : Ns}

theorem keeps_readBlob (name : String) (maxLen : ℕ) : Keeps K (readBlob n name maxLen) := by
  refine Keeps.of_state fun f => ?_
  rw [readBlob, Prog.bind_of_ok (Prog.get_run f)]
  cases (f.namespaces n).lookup name with
  | none => rfl
  | some d =>
    simp only
    split_ifs <;> rfl

/-- A primitive changes one namespace, and not the cache. -/
theorem keeps_mutate (hK : ∀ f f' content, K f → Wrote f n content f' → K f')
    (after : (String → Bool) → Namespace → Namespace) : Keeps K (mutate n after) := by
  refine Triple.ofState fun f hf => ?_
  have hallows : Weather.rough.Allows f.fates := by
    intro fate _
    cases fate <;> trivial
  refine (mutate_spec n after hallows).weaken (fun _ => id) ?_ ?_ ?_
  · exact fun _ f' hwrote => hK f f' _ hf hwrote
  · rintro _ f' ⟨-, kept, hwrote⟩
    exact hK f f' _ hf hwrote
  · rintro f' ⟨-, kept, hwrote⟩
    exact hK f f' _ hf hwrote

theorem keeps_setBlob (hK : ∀ f f' content, K f → Wrote f n content f' → K f') (name : String)
    (value : Bytes) : Keeps K (setBlob n name value) := by
  unfold setBlob
  split_ifs
  · exact .throw _
  · exact keeps_mutate hK _

theorem keeps_removeBlob (hK : ∀ f f' content, K f → Wrote f n content f' → K f')
    (name : String) : Keeps K (removeBlob n name) := by
  refine Keeps.bind (.of_state fun _ => rfl) fun f => ?_
  split
  · exact .pure _
  · exact keeps_mutate hK _

variable (P : Platform Device SyncKey)

theorem keeps_eraseNamespace (hK : ∀ f f' content, K f → Wrote f n content f' → K f')
    (label : String) : Keeps K (eraseNamespace P n label) := by
  unfold eraseNamespace
  generalize (none : Option String) = lastError
  induction 3 generalizing lastError with
  | zero => exact .throw _
  | succ attempts ih =>
    refine Keeps.bind (keeps_mutate hK _).attempt fun r => ?_
    cases r with
    | error e => exact ih _
    | ok u =>
      refine Keeps.bind (.of_state fun _ => rfl) fun names => ?_
      split_ifs
      · exact .pure _
      · exact ih _

theorem keeps_eraseKinds (hK : ∀ n f f' content, K f → Wrote f n content f' → K f')
    (kinds : List (Kind × String)) : Keeps K (eraseKinds P kinds) := by
  induction kinds with
  | nil => exact .pure _
  | cons kind kinds ih => exact Keeps.bind (keeps_eraseNamespace P (hK _) _) fun _ => ih

end Jobs

/-! ### Every job keeps the cache -/

variable {P : Platform Device SyncKey}

/-- Writing another namespace. -/
theorem CacheOk.wrote {n : Ns} (hn : n ≠ .records .sessions) (f f' : FlashNamespaces)
    (content : Namespace) (h : CacheOk f) (hwrote : Wrote f n content f') : CacheOk f' := by
  refine h.frame hwrote.slots ?_
  rw [hwrote.namespaces, Function.update_of_ne (Ne.symm hn)]

/-- An empty cache stays empty. -/
theorem slots_wrote (n : Ns) (f f' : FlashNamespaces) (content : Namespace)
    (h : f.validatedSessions = []) (hwrote : Wrote f n content f') :
    f'.validatedSessions = [] := hwrote.slots.trans h

/-- A job that empties the cache first. -/
theorem cacheOk_cleared {p : FlashM α} (h : Keeps (fun f => f.validatedSessions = []) p) :
    Triple CacheOk (Prog.modify clearSlots >>= fun _ => p) (fun _ => CacheOk) (fun _ => CacheOk)
      CacheOk := by
  refine Triple.bind (M := fun _ f => f.validatedSessions = []) (Triple.modify _ fun _ _ => rfl)
    fun _ => ?_
  exact h.weaken (fun _ => id) (fun _ _ => .empty) (fun _ _ => .empty) (fun _ => .empty)

theorem rememberSessionSlot_run {n : Ns} {name : String} {key : Bytes} {f : FlashNamespaces}
    (h : CacheOk f) (hstored : n = .records .sessions → StoresKey (f.namespaces n) name key) :
    ∃ f', rememberSessionSlot n name key f = (.ok (), f') ∧ CacheOk f' ∧
      f'.namespaces = f.namespaces := by
  unfold rememberSessionSlot
  split_ifs with hn
  · exact ⟨f, rfl, h, rfl⟩
  · rw [not_not] at hn
    subst hn
    exact ⟨_, rfl, h.remember (hstored rfl), rfl⟩

theorem readBlob_run (n : Ns) (name : String) (maxLen : ℕ) (f : FlashNamespaces) :
    readBlob n name maxLen f =
      match (f.namespaces n).lookup name with
      | none => (.ok none, f)
      | some data =>
        if data.length > maxLen then
          (.error (.validation s!"NVS record '{name}' is too large: {data.length} bytes"), f)
        else (.ok (some data), f) := by
  rw [readBlob, Prog.bind_of_ok (Prog.get_run f)]
  cases (f.namespaces n).lookup name with
  | none => rfl
  | some data =>
    simp only
    split_ifs <;> rfl

theorem cacheOk_loadRecord (n : Ns) (key : Bytes) {maxValueLen : ℕ}
    (hmax : maxValueLen ≤ maxSignalRecordLen) {f : FlashNamespaces} (h : CacheOk f) :
    CacheOk (loadRecord P n key maxValueLen f).2 ∧
      (loadRecord P n key maxValueLen f).2.namespaces = f.namespaces := by
  unfold loadRecord
  have hread := readBlob_run n (P.recordName key) (recordHeaderLen + maxLogicalKeyLen + maxValueLen) f
  cases hl : (f.namespaces n).lookup (P.recordName key) with
  | none =>
    rw [hl] at hread
    simp only [Prog.bind_of_ok hread]
    exact ⟨h, rfl⟩
  | some r =>
    rw [hl] at hread
    simp only at hread
    split_ifs at hread with hlen
    · simp only [Prog.bind_of_error hread]
      exact ⟨h, trivial⟩
    · simp only [Prog.bind_of_ok hread]
      cases hdec : decodeRecord r with
      | error e => exact ⟨h, rfl⟩
      | ok p =>
        obtain ⟨storedKey, value⟩ := p
        simp only [Prog.ofExcept_ok_bind]
        split_ifs with hkey hvalue
        · exact ⟨h, rfl⟩
        · exact ⟨h, rfl⟩
        · rw [not_not] at hkey
          subst hkey
          obtain ⟨f', hrun, hcache, hns⟩ := rememberSessionSlot_run h fun _ =>
            ⟨r, value, hl, by rw [maxRecordLen]; omega, hdec⟩
          rw [Prog.bind_of_ok hrun]
          exact ⟨hcache, hns⟩

/-! ### Checking a slot -/

/-- What `check_record_slot` says about a slot when it looks at the flash. -/
def slotVerdict (P : Platform Device SyncKey) (content : Namespace) (key : Bytes) (label : String)
    (maxEntries : ℕ) : Outcome StoreError String :=
  let name := P.recordName key
  match content.lookup name with
  | some existing =>
    if existing.length > maxRecordLen then
      .error (.validation s!"NVS record '{name}' is too large: {existing.length} bytes")
    else
      match decodeRecord existing with
      | .error e => .error e
      | .ok (storedKey, _) =>
        if storedKey ≠ key then .error (.validation s!"{label} NVS key collision at '{name}'")
        else .ok name
  | none =>
    match ensureInsertCapacity false content.size maxEntries label with
    | .error e => .error e
    | .ok () => .ok name

/-- A check of the flash gives its verdict, and keeps the cache and the records. -/
theorem checkFlashSlot_run (n : Ns) (key : Bytes) (label : String) (maxEntries : ℕ)
    {f : FlashNamespaces} (h : CacheOk f) :
    ∃ f', checkFlashSlot P n key label maxEntries f =
        (slotVerdict P (f.namespaces n) key label maxEntries, f') ∧
      CacheOk f' ∧ f'.namespaces = f.namespaces := by
  unfold checkFlashSlot slotVerdict
  have hlimit : recordHeaderLen + maxLogicalKeyLen + maxSignalRecordLen = maxRecordLen := rfl
  have hread := readBlob_run n (P.recordName key) maxRecordLen f
  simp only [hlimit]
  cases hl : (f.namespaces n).lookup (P.recordName key) with
  | none =>
    rw [hl] at hread
    simp only [Prog.bind_of_ok hread]
    rw [Prog.bind_of_ok (recordCount_eq n f)]
    cases ensureInsertCapacity false (f.namespaces n).size maxEntries label with
    | error e => exact ⟨f, rfl, h, rfl⟩
    | ok u => exact ⟨f, rfl, h, rfl⟩
  | some r =>
    rw [hl] at hread
    simp only at hread ⊢
    split_ifs at hread with hlen
    · rw [Prog.bind_of_error hread, if_pos hlen]
      exact ⟨f, rfl, h, rfl⟩
    · simp only [Prog.bind_of_ok hread]
      rw [if_neg hlen]
      cases hdec : decodeRecord r with
      | error e => exact ⟨f, rfl, h, rfl⟩
      | ok p =>
        obtain ⟨storedKey, value⟩ := p
        simp only [Prog.ofExcept_ok_bind]
        split_ifs with hkey
        · exact ⟨f, rfl, h, rfl⟩
        · rw [not_not] at hkey
          subst hkey
          obtain ⟨f', hrun, hcache, hns⟩ := rememberSessionSlot_run h fun _ =>
            ⟨r, value, hl, by omega, hdec⟩
          rw [Prog.bind_of_ok hrun]
          exact ⟨f', rfl, hcache, hns⟩

/-- A cached slot gives the verdict that the flash would give. -/
theorem cachedSlot_verdict {n : Ns} {key : Bytes} {f : FlashNamespaces} (h : CacheOk f) {b : Bool}
    (hcached : cachedSlot P n key f = some b) (label : String) (maxEntries : ℕ) :
    slotVerdict P (f.namespaces n) key label maxEntries =
      if b then .ok (P.recordName key)
      else .error (.validation s!"{label} NVS key collision at '{P.recordName key}'") := by
  unfold cachedSlot at hcached
  split_ifs at hcached with hn
  subst hn
  unfold SessionSlots.lookupMatches at hcached
  obtain ⟨slot, hfind, hb⟩ := Option.map_eq_some_iff.mp hcached
  have hname : slot.1 = P.recordName key := by simpa using List.find?_some hfind
  obtain ⟨r, value, hl, hle, hdec⟩ := h.stored slot (List.mem_of_find?_eq_some hfind)
  rw [hname] at hl
  unfold slotVerdict
  simp only [hl, hdec, if_neg (by omega : ¬r.length > maxRecordLen)]
  by_cases hkey : slot.2 = key
  · simp [← hb, hkey]
  · simp [← hb, hkey]

/-- The verdict on a key within the bounds is that of the flash, with and without cached slots. -/
theorem checkRecordSlot_run (n : Ns) {key : Bytes} {valueLen : ℕ} (label : String)
    (maxEntries : ℕ) {f : FlashNamespaces} (h : CacheOk f) (hvalue : ¬valueLen > maxSignalRecordLen)
    (hkey : ¬key.length > maxLogicalKeyLen) :
    ∃ f', checkRecordSlot P n key valueLen label maxEntries f =
        (slotVerdict P (f.namespaces n) key label maxEntries, f') ∧
      CacheOk f' ∧ f'.namespaces = f.namespaces := by
  unfold checkRecordSlot
  rw [if_neg hvalue, if_neg hkey, Prog.bind_of_ok (Prog.get_run f)]
  cases hcached : cachedSlot P n key f with
  | none => exact checkFlashSlot_run n key label maxEntries h
  | some b =>
    rw [cachedSlot_verdict h hcached]
    cases b with
    | true => exact ⟨f, rfl, h, rfl⟩
    | false => exact ⟨f, rfl, h, rfl⟩

/-- With the cache emptied the verdict is the same. -/
theorem checkRecordSlot_clearSlots (n : Ns) (key : Bytes) (valueLen : ℕ) (label : String)
    (maxEntries : ℕ) {f : FlashNamespaces} (h : CacheOk f) :
    (checkRecordSlot P n key valueLen label maxEntries f).1 =
      (checkRecordSlot P n key valueLen label maxEntries f.clearSlots).1 := by
  by_cases hvalue : valueLen > maxSignalRecordLen
  · simp only [checkRecordSlot, if_pos hvalue, Prog.throw_run]
  · by_cases hkey : key.length > maxLogicalKeyLen
    · simp only [checkRecordSlot, if_neg hvalue, if_pos hkey, Prog.throw_run]
    · obtain ⟨f', hrun, -⟩ := checkRecordSlot_run (P := P) n label maxEntries h hvalue hkey
      have hempty : CacheOk f.clearSlots := .empty rfl
      obtain ⟨f'', hrun', -⟩ := checkRecordSlot_run (P := P) n label maxEntries hempty hvalue hkey
      rw [hrun, hrun']
      rfl

/-- A session that passes the check may be written. -/
theorem cacheOk_checkRecordSlot (n : Ns) (key : Bytes) (valueLen : ℕ) (label : String)
    (maxEntries : ℕ) :
    Triple CacheOk (checkRecordSlot P n key valueLen label maxEntries)
      (fun name f => CacheOk f ∧ valueLen ≤ maxSignalRecordLen ∧
        (n = .records .sessions → MayWrite P f name key))
      (fun _ => CacheOk) CacheOk := by
  refine Triple.ofState fun f h => ?_
  by_cases hvalue : valueLen > maxSignalRecordLen
  · refine Triple.ofRun ?_
    simp only [checkRecordSlot, if_pos hvalue, Prog.throw_run]
    exact h
  · by_cases hkey : key.length > maxLogicalKeyLen
    · refine Triple.ofRun ?_
      simp only [checkRecordSlot, if_neg hvalue, if_pos hkey, Prog.throw_run]
      exact h
    · obtain ⟨f', hrun, hcache, hns⟩ :=
        checkRecordSlot_run (P := P) n label maxEntries h hvalue hkey
      refine Triple.ofRunEq hrun ?_
      unfold slotVerdict
      simp only
      split
      · rename_i r hl
        split_ifs with hlen
        · exact hcache
        · split
          · exact hcache
          · rename_i storedKey value hdec
            split_ifs with hne
            · exact hcache
            · rw [not_not] at hne
              -- the name holds a record of the key itself
              subst hne
              refine ⟨hcache, by omega, ?_⟩
              rintro rfl
              refine ⟨rfl, by omega, Or.inr ⟨r, value, ?_, by omega, hdec⟩⟩
              rw [hns]
              exact hl
      · rename_i hl
        split
        · exact hcache
        · refine ⟨hcache, by omega, ?_⟩
          rintro rfl
          refine ⟨rfl, by omega, Or.inl ?_⟩
          rw [hns]
          exact hl

/-! ### Every job keeps the cache -/

theorem setBlob_prepared {name : String} {key value : Bytes}
    (hvalue : value.length ≤ maxSignalRecordLen) :
    Triple (fun f => CacheOk f ∧ MayWrite P f name key)
      (setBlob (.records .sessions) name (record key value)) (fun _ => CacheOk) (fun _ => CacheOk)
      CacheOk := by
  refine Triple.ofState fun f ⟨h, hmay⟩ => ?_
  have hallows : Weather.rough.Allows f.fates := by
    intro fate _
    cases fate <;> trivial
  have hwrote : ∀ (kept : String → Bool) (f' : FlashNamespaces), Wrote f (.records .sessions)
      (if kept name then f.namespaces (.records .sessions)
        else (f.namespaces (.records .sessions)).insert name (record key value)) f' →
      CacheOk f' := by
    intro kept f' hw
    have hns := congrFun hw.namespaces (.records .sessions)
    rw [Function.update_self] at hns
    by_cases hkept : kept name = true
    · rw [if_pos hkept] at hns
      exact h.frame hw.slots hns
    · rw [if_neg hkept] at hns
      exact h.insert hmay hvalue hw.slots hns
  unfold setBlob
  split_ifs
  · exact Triple.ofRun h
  · refine (mutate_spec _ _ hallows).weaken (fun _ => id)
      (fun _ f' => hwrote (fun _ => false) f') ?_ ?_
    · rintro _ f' ⟨-, kept, hw⟩
      exact hwrote kept f' hw
    · rintro f' ⟨-, kept, hw⟩
      exact hwrote kept f' hw

theorem cacheOk_putRecord (n : Ns) (key value : Bytes) (label : String) (maxEntries : ℕ) :
    Keeps CacheOk (putRecord P n key value label maxEntries) := by
  unfold putRecord prepareRecord
  rw [Prog.bind_assoc]
  refine Triple.bind (cacheOk_checkRecordSlot n key value.length label maxEntries) fun name => ?_
  refine Triple.ofFact (fun f hf => hf.2.1) fun hvalue => ?_
  unfold encodeRecord
  split_ifs with hkey
  · exact Triple.throw _ fun f hf => hf.1
  · simp only [Prog.ofExcept_ok_bind]
    by_cases hn : n = .records .sessions
    · subst hn
      exact (setBlob_prepared hvalue).pre fun f hf => ⟨hf.1, hf.2.2 rfl⟩
    · exact (keeps_setBlob (CacheOk.wrote hn) _ _).pre fun f hf => hf.1

variable (P) in
/-- The job of `delete_record` after the cache has been invalidated. -/
def removeStored (n : Ns) (key : Bytes) (label : String) : FlashM Unit := do
  let name := P.recordName key
  match ← readBlob n name (recordHeaderLen + maxLogicalKeyLen + maxSignalRecordLen) with
  | none => pure ()
  | some existing =>
    let (storedKey, _) ← Prog.ofExcept (decodeRecord existing)
    if storedKey ≠ key then
      .throw (.validation s!"{label} NVS key collision at '{name}'")
    else
      nvsRemove n name

theorem deleteRecord_eq (n : Ns) (key : Bytes) (label : String) :
    deleteRecord P n key label = forgetSessionSlots n >>= fun _ => removeStored P n key label :=
  rfl

theorem keeps_removeStored {K : FlashNamespaces → Prop} {n : Ns}
    (hK : ∀ f f' content, K f → Wrote f n content f' → K f') (key : Bytes) (label : String) :
    Keeps K (removeStored P n key label) := by
  refine Keeps.bind (keeps_readBlob _ _) fun existing => ?_
  cases existing with
  | none => exact .pure _
  | some r =>
    refine Keeps.bind (.ofExcept _) fun p => ?_
    simp only
    split_ifs
    · exact .throw _
    · exact keeps_mutate hK _

theorem cacheOk_deleteRecord (n : Ns) (key : Bytes) (label : String) :
    Keeps CacheOk (deleteRecord P n key label) := by
  -- the cache is invalidated for sessions only
  rw [deleteRecord_eq, forgetSessionSlots]
  by_cases hn : n = .records .sessions
  · rw [if_pos hn]
    exact cacheOk_cleared (keeps_removeStored (slots_wrote n) key label)
  · rw [if_neg hn]
    exact Keeps.bind (.pure _) fun _ => keeps_removeStored (CacheOk.wrote hn) key label

theorem cacheOk_eraseSignal : Keeps CacheOk (eraseSignal P) :=
  cacheOk_cleared (Keeps.bind (keeps_removeBlob (slots_wrote _) _) fun _ =>
    keeps_eraseKinds P slots_wrote _)

theorem cacheOk_eraseAll : Keeps CacheOk (eraseAll P) :=
  Keeps.bind (keeps_eraseNamespace P (CacheOk.wrote (by decide)) _) fun _ => cacheOk_eraseSignal

theorem cacheOk_completeReset : Keeps CacheOk (completeReset P) :=
  Keeps.bind cacheOk_eraseAll fun _ => keeps_removeBlob (CacheOk.wrote (by decide)) _

theorem cacheOk_writeSyncKey (keyId payload : Bytes) :
    Keeps CacheOk (NvsStore.writeSyncKey P keyId payload) := by
  unfold NvsStore.writeSyncKey prepareRecord
  rw [Prog.bind_assoc]
  refine Triple.bind (cacheOk_checkRecordSlot _ keyId _ _ _) fun name => ?_
  refine Triple.pre ?_ (fun f hf => hf.1)
  rw [Prog.bind_assoc]
  refine Keeps.bind (.ofExcept _) fun r => Keeps.bind (.pure _) fun p => Keeps.bind ?_ fun _ =>
    keeps_setBlob (CacheOk.wrote (by decide)) _ _
  unfold saveLatestSyncKeyId
  split_ifs
  · exact .throw _
  · exact Keeps.bind (.ofExcept _) fun r => keeps_setBlob (CacheOk.wrote (by decide)) _ _

theorem cacheOk_saveDevice (device : Device) : Keeps CacheOk (saveDevice P device) := by
  unfold saveDevice
  split
  · exact .throw _
  · split_ifs
    · exact .throw _
    · exact Keeps.bind (.ofExcept _) fun r => keeps_setBlob (CacheOk.wrote (by decide)) _ _

/-- Every job of a mutator keeps the cache, also when it fails halfway. -/
theorem MutatorJob.keeps (job : MutatorJob Device) : Keeps CacheOk (job.exec P) := by
  cases job with
  | checkRecordSlot n key valueLen label maxEntries =>
    exact Triple.bind (cacheOk_checkRecordSlot n key valueLen label maxEntries) fun _ =>
      Triple.pure _ fun f hf => hf.1
  | putRecord n key value label maxEntries => exact cacheOk_putRecord n key value label maxEntries
  | deleteRecord n key label => exact cacheOk_deleteRecord n key label
  | writeSyncKey keyId payload => exact cacheOk_writeSyncKey keyId payload
  | saveDevice device => exact cacheOk_saveDevice device
  | clearSessions =>
    refine Keeps.bind ?_ fun _ => .pure _
    refine Keeps.bind (.of_state fun _ => rfl) fun count => ?_
    exact cacheOk_cleared (Keeps.bind (keeps_eraseNamespace P (slots_wrote _) _) fun _ => .pure _)
  | eraseSignal => exact cacheOk_eraseSignal
  | eraseAll => exact cacheOk_eraseAll
  | completeReset => exact cacheOk_completeReset
  | resetAll =>
    exact Keeps.bind (keeps_setBlob (CacheOk.wrote (by decide)) _ _) fun _ => cacheOk_completeReset

/-! ### Runs of the worker -/

/-- The invariant of the worker. -/
structure WorkerOk (P : Platform Device SyncKey) (worker : Worker) : Prop where
  cache : CacheOk worker.flash
  prepared : ∀ name key, worker.prepared = some (name, key) → MayWrite P worker.flash name key

theorem CacheOk.withFates {f : FlashNamespaces} (h : CacheOk f) (fates : List Fate) :
    CacheOk (f.withFates fates) := h.frame rfl rfl

theorem MayWrite.frame {f f' : FlashNamespaces} {name : String} {key : Bytes}
    (h : MayWrite P f name key) (hns : f'.namespaces = f.namespaces) : MayWrite P f' name key :=
  ⟨h.name_eq, h.length_le, by rw [hns]; exact h.own⟩

theorem WorkerOk.step {worker worker' : Worker} (h : WorkerOk P worker)
    (hstep : Worker.Step P worker worker') : WorkerOk P worker' := by
  cases hstep with
  | load f prepared n key hmax =>
    obtain ⟨hcache, hns⟩ := cacheOk_loadRecord (P := P) n key hmax h.cache
    exact ⟨hcache, fun name key hp => (h.prepared name key hp).frame hns⟩
  | mutator f fates job => exact ⟨(job.keeps).snd (h.cache.withFates fates), nofun⟩
  | prepare f f' key valueLen name hcheck =>
    have hpost := cacheOk_checkRecordSlot (P := P) (.records .sessions) key valueLen "session"
      maxSessions f h.cache
    rw [hcheck] at hpost
    refine ⟨hpost.1, fun name' key' hp => ?_⟩
    cases hp
    exact hpost.2.2 rfl
  | write f fates name key hvalue hr =>
    have hmay := h.prepared name key rfl
    rw [encodeRecord_of_le hmay.length_le] at hr
    cases hr
    have hpost := setBlob_prepared (P := P) hvalue (f.withFates fates)
      ⟨h.cache.withFates fates, hmay.frame rfl⟩
    refine ⟨?_, nofun⟩
    generalize setBlob _ _ _ _ = r at hpost
    obtain ⟨a | e | _, f'⟩ := r <;> exact hpost
  | abandon f name key => exact ⟨h.cache, nofun⟩

theorem Worker.Reachable.ok {worker : Worker} (h : Worker.Reachable P worker) :
    WorkerOk P worker := by
  obtain ⟨namespaces, fates, hrun⟩ := h
  induction hrun with
  | refl => exact ⟨.empty rfl, nofun⟩
  | tail _ hstep ih => exact ih.step hstep

/-- In every state of the worker the cached slots have distinct names, are at most eight, and name
records of their keys; so a check gives the result that it would give without them. -/
theorem reachable_cache_transparent {worker : Worker} (h : Worker.Reachable P worker) :
    (worker.flash.validatedSessions.map Prod.fst).Nodup ∧
    worker.flash.validatedSessions.length ≤ 8 ∧
    (∀ slot ∈ worker.flash.validatedSessions, ∃ r value,
      (worker.flash.namespaces (.records .sessions)).lookup slot.1 = some r ∧
        decodeRecord r = .ok (slot.2, value)) ∧
    ∀ n key valueLen label maxEntries,
      (checkRecordSlot P n key valueLen label maxEntries worker.flash).1 =
        (checkRecordSlot P n key valueLen label maxEntries worker.flash.clearSlots).1 := by
  have hok := h.ok.cache
  refine ⟨hok.names, hok.length_le, fun slot hslot => ?_, fun n key valueLen label maxEntries =>
    checkRecordSlot_clearSlots n key valueLen label maxEntries hok⟩
  obtain ⟨r, value, hl, -, hdec⟩ := hok.stored slot hslot
  exact ⟨r, value, hl, hdec⟩

/-- A worker that has written the session `a` and read it back. -/
def loadedWorker : Worker :=
  ⟨(loadRecord aliceBoard (.records .sessions) [97] maxSignalRecordLen
    ((MutatorJob.putRecord (.records .sessions) [97] [1, 2, 3] "session" maxSessions).exec aliceBoard
      (FlashNamespaces.withFates ⟨emptyPartition, [], []⟩ [])).2).2, none⟩

/-- On a board where all names collide, the cached slot of `a` refuses the session `b`, as the flash
would. -/
theorem loadedWorker_transparent :
    loadedWorker.flash.validatedSessions = [(aliceBoard.recordName [97], [97])] ∧
    (checkRecordSlot aliceBoard (.records .sessions) [98] 3 "session" maxSessions
      loadedWorker.flash).1 =
      (checkRecordSlot aliceBoard (.records .sessions) [98] 3 "session" maxSessions
        loadedWorker.flash.clearSlots).1 := by
  have hreachable : Worker.Reachable aliceBoard loadedWorker := by
    refine ⟨emptyPartition, [], ?_⟩
    refine .tail (.tail .refl (.mutator _ [] (.putRecord (.records .sessions) [97] [1, 2, 3]
      "session" maxSessions))) (.load _ none (.records .sessions) [97] le_rfl)
  exact ⟨by decide +kernel, (reachable_cache_transparent hreachable).2.2.2 _ _ _ _ _⟩

end WhatsappEsp32
