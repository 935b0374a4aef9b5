import WhatsappEsp32.Storage.Reopen

/-!
# Factory reset

`reset_all` commits a marker before it erases anything, erases the device first and the marker
last, and `open` completes a reset whose marker it finds.  The results here are about any content
of the partition, any primitive at which the power is lost or that fails, and any number of later
attempts to open.

* `Marked`, `Wiped`: the reset is committed, and the reset is complete;
* `completeReset_doomed`, `resetAll_doomed`: what the erasures leave behind wherever they stop;
* `openFlash_doomed`: a committed reset stays committed until a boot leaves the partition wiped;
* `openFlash_orphans`: without a reset, a boot only sweeps away records that no device owns;
* `reset_is_crash_safe`: the first boot that succeeds after a reset was interrupted.
-/

namespace WhatsappEsp32

open CrashLogic FlashNamespaces NvsStore

variable {Device SyncKey α : Type} {P : Platform Device SyncKey} {w : Weather}

/-- A reset is pending. -/
def Marked (ns : Ns → Namespace) : Prop := (ns .control).lookup "reset" ≠ none

instance (ns : Ns → Namespace) : Decidable (Marked ns) :=
  inferInstanceAs (Decidable (_ ≠ _))

/-- Nothing is left of the old device, its records and its markers. -/
structure Wiped (ns : Ns → Namespace) : Prop where
  device : ns .device = ∅
  records : ∀ kind, ns (.records kind) = ∅
  latestSync : (ns .control).lookup "latestsync" = none
  reset : (ns .control).lookup "reset" = none

/-- The reset is committed: it is pending or complete. -/
def Doomed (ns : Ns → Namespace) : Prop := Marked ns ∨ Wiped ns

theorem rough_allows (fates : List Fate) : Weather.rough.Allows fates := by
  intro fate _
  cases fate <;> trivial

/-! ### Erasing, whatever the content -/

/-- The namespaces meet `I`, and the script keeps to the weather. -/
def On (w : Weather) (I : (Ns → Namespace) → Prop) (f : FlashNamespaces) : Prop :=
  w.Allows f.fates ∧ I f.namespaces

variable {I J : (Ns → Namespace) → Prop}

theorem On.wrote {f f' : FlashNamespaces} {n : Ns} {content : Namespace} (h : On w I f)
    (hw : Wrote f n content f') (hJ : I f.namespaces → J (Function.update f.namespaces n content)) :
    On w J f' := by
  refine ⟨h.1.wrote hw, ?_⟩
  rw [hw.namespaces]
  exact hJ h.2

/-- An erasure keeps what does not depend on the namespace it erases. -/
theorem eraseNamespace_keeps (n : Ns) (label : String)
    (hI : ∀ ns content, I ns → I (Function.update ns n content)) :
    Triple (On w I) (eraseNamespace P n label) (fun _ => On w fun ns => I ns ∧ ns n = ∅)
      (fun _ f => w.mayFail ∧ On w I f) (fun f => w.mayCut ∧ On w I f) := by
  refine Triple.ofState fun f hf => ?_
  refine (eraseNamespace_spec n label hf.1).weaken (fun _ => id) ?_ ?_ ?_
  · exact fun _ f' hw => hf.wrote hw fun h => ⟨hI _ _ h, Function.update_self ..⟩
  · exact fun _ f' ⟨hmay, _, hw⟩ => ⟨hmay, hf.wrote hw (hI _ _)⟩
  · exact fun f' ⟨hmay, _, hw⟩ => ⟨hmay, hf.wrote hw (hI _ _)⟩

/-- The erasures of `erase_signal`, with the kinds erased so far. -/
theorem eraseKinds_keeps (hI : ∀ ns kind content, I ns → I (Function.update ns (.records kind) content))
    (kinds : List (Kind × String)) (erased : List Kind) :
    Triple (On w fun ns => I ns ∧ ∀ kind ∈ erased, ns (.records kind) = ∅) (eraseKinds P kinds)
      (fun _ => On w fun ns => I ns ∧ ∀ kind ∈ erased ++ kinds.map Prod.fst, ns (.records kind) = ∅)
      (fun _ f => w.mayFail ∧ On w I f) (fun f => w.mayCut ∧ On w I f) := by
  induction kinds generalizing erased with
  | nil => exact Triple.pure _ fun f hf => by simpa using hf
  | cons e kinds ih =>
    obtain ⟨kind, label⟩ := e
    refine Triple.bind (M := fun _ => On w fun ns => I ns ∧
      ∀ kind' ∈ erased ++ [kind], ns (.records kind') = ∅) ?_ fun _ => ?_
    · refine Triple.ofState fun f hf => ?_
      refine (eraseNamespace_spec (.records kind) label hf.1).weaken (fun _ => id) ?_ ?_ ?_
      · refine fun _ f' hw => hf.wrote hw fun ⟨h, herased⟩ => ⟨hI _ _ _ h, fun kind' hkind' => ?_⟩
        by_cases heq : kind' = kind
        · rw [heq, Function.update_self]
        · rw [Function.update_of_ne (by simpa using heq)]
          exact herased kind' (by simpa [heq] using hkind')
      · exact fun _ f' ⟨hmay, _, hw⟩ => ⟨hmay, hf.wrote hw fun h => hI _ _ _ h.1⟩
      · exact fun f' ⟨hmay, _, hw⟩ => ⟨hmay, hf.wrote hw fun h => hI _ _ _ h.1⟩
    · have hnext := ih (erased ++ [kind])
      simpa only [List.append_assoc, List.singleton_append, List.map_cons] using hnext

/-- The removal of one blob of the control namespace takes `I` to `J`. -/
theorem removeBlob_keeps (name : String)
    (hgone : ∀ ns, I ns → (ns .control).lookup name = none → J ns)
    (herase : ∀ ns, I ns → J (Function.update ns .control ((ns .control).erase name))) :
    Triple (On w I) (removeBlob .control name) (fun _ => On w J)
      (fun _ f => w.mayFail ∧ On w (fun ns => I ns ∨ J ns) f)
      (fun f => w.mayCut ∧ On w (fun ns => I ns ∨ J ns) f) := by
  refine Triple.bindRead fun f hf => ⟨f, rfl, ?_⟩
  cases hl : (f.namespaces .control).lookup name with
  | none => exact Triple.ofRun ⟨hf.1, hgone _ hf.2 hl⟩
  | some value =>
    have hkept : ∀ f' (kept : String → Bool), Wrote f .control
        (if kept name then f.namespaces .control else (f.namespaces .control).erase name) f' →
        On w (fun ns => I ns ∨ J ns) f' := by
      refine fun f' kept hw => hf.wrote hw fun h => ?_
      split_ifs
      · rw [Function.update_eq_self]
        exact Or.inl h
      · exact Or.inr (herase _ h)
    refine (mutate_spec .control _ hf.1).weaken (fun _ => id) ?_ ?_ ?_
    · exact fun _ f' hw => hf.wrote hw (herase _)
    · exact fun _ f' ⟨hmay, kept, hw⟩ => ⟨hmay, hkept f' kept hw⟩
    · exact fun f' ⟨hmay, kept, hw⟩ => ⟨hmay, hkept f' kept hw⟩

/-- `erase_signal` removes the marker of the latest sync key before it erases any record. -/
theorem eraseSignal_keeps
    (hgone : ∀ ns, I ns → (ns .control).lookup "latestsync" = none → J ns)
    (herase : ∀ ns, I ns → J (Function.update ns .control ((ns .control).erase "latestsync")))
    (hJ : ∀ ns kind content, J ns → J (Function.update ns (.records kind) content)) :
    Triple (On w I) (eraseSignal P)
      (fun _ => On w fun ns => J ns ∧ ∀ kind, ns (.records kind) = ∅)
      (fun _ f => w.mayFail ∧ On w (fun ns => I ns ∨ J ns) f)
      (fun f => w.mayCut ∧ On w (fun ns => I ns ∨ J ns) f) := by
  refine Triple.bind (M := fun _ => On w I) (Triple.modify _ fun f hf => hf) fun _ => ?_
  refine Triple.bind (removeBlob_keeps "latestsync" hgone herase) fun _ => ?_
  refine (eraseKinds_keeps (w := w) hJ signalKinds []).weaken ?_ ?_ ?_ ?_
  · exact fun f hf => ⟨hf.1, hf.2, by simp⟩
  · refine fun _ f hf => ⟨hf.1, hf.2.1, fun kind => hf.2.2 kind ?_⟩
    cases kind <;> decide
  · exact fun _ f ⟨hmay, hf⟩ => ⟨hmay, hf.1, Or.inr hf.2⟩
  · exact fun f ⟨hmay, hf⟩ => ⟨hmay, hf.1, Or.inr hf.2⟩

/-! ### The reset -/

theorem Marked.update {ns : Ns → Namespace} (h : Marked ns) {n : Ns} (hn : n ≠ .control)
    (content : Namespace) : Marked (Function.update ns n content) := by
  rwa [Marked, Function.update_of_ne hn.symm]

theorem Marked.erase {ns : Ns → Namespace} (h : Marked ns) {name : String} (hn : name ≠ "reset") :
    Marked (Function.update ns .control ((ns .control).erase name)) := by
  rwa [Marked, Function.update_self, AList.lookup_erase_ne hn.symm]

/-- Once the reset is committed its erasures end with a wiped partition; if one does not complete,
the marker is still there. -/
theorem completeReset_doomed :
    Triple (On w Marked) (completeReset P) (fun _ => On w Wiped)
      (fun _ f => w.mayFail ∧ On w Doomed f) (fun f => w.mayCut ∧ On w Doomed f) := by
  -- the marker stays until everything else is gone
  have hall : Triple (On w Marked) (FlashNamespaces.eraseAll P)
      (fun _ => On w fun ns => (Marked ns ∧ ns .device = ∅ ∧
        (ns .control).lookup "latestsync" = none) ∧ ∀ kind, ns (.records kind) = ∅)
      (fun _ f => w.mayFail ∧ On w Doomed f) (fun f => w.mayCut ∧ On w Doomed f) := by
    refine Triple.bind ((eraseNamespace_keeps (w := w) .device "device"
      fun ns content h => h.update (by decide) content).weaken (fun _ => id) (fun _ _ => id)
      (fun _ f h => ⟨h.1, h.2.1, Or.inl h.2.2⟩) (fun f h => ⟨h.1, h.2.1, Or.inl h.2.2⟩))
      fun _ => ?_
    refine (eraseSignal_keeps (w := w) (I := fun ns => Marked ns ∧ ns .device = ∅)
      (J := fun ns => Marked ns ∧ ns .device = ∅ ∧ (ns .control).lookup "latestsync" = none)
      ?_ ?_ ?_).weaken (fun _ => id) (fun _ _ => id) ?_ ?_
    · exact fun ns h hnone => ⟨h.1, h.2, hnone⟩
    · intro ns h
      refine ⟨h.1.erase (by decide), ?_, ?_⟩
      · rw [Function.update_of_ne (by decide)]
        exact h.2
      · rw [Function.update_self, AList.lookup_erase]
    · intro ns kind content h
      refine ⟨h.1.update (by simp) content, ?_, ?_⟩ <;> rw [Function.update_of_ne (by simp)]
      · exact h.2.1
      · exact h.2.2
    · exact fun _ f h => ⟨h.1, h.2.1, Or.inl (h.2.2.elim And.left And.left)⟩
    · exact fun f h => ⟨h.1, h.2.1, Or.inl (h.2.2.elim And.left And.left)⟩
  -- taking the marker away is the last write, and may fail or be cut too
  refine Triple.bind hall fun _ => (removeBlob_keeps (w := w) (J := Wiped) "reset" ?_ ?_).weaken
    (fun _ => id) (fun _ _ => id) ?_ ?_
  · exact fun ns h hnone => absurd hnone h.1.1
  · intro ns h
    constructor
    · rw [Function.update_of_ne (by decide)]
      exact h.1.2.1
    · intro kind
      rw [Function.update_of_ne (by simp)]
      exact h.2 kind
    · rw [Function.update_self, AList.lookup_erase_ne (by decide)]
      exact h.1.2.2
    · rw [Function.update_self, AList.lookup_erase]
  · exact fun _ f h => ⟨h.1, h.2.1, h.2.2.imp_left fun h => h.1.1⟩
  · exact fun f h => ⟨h.1, h.2.1, h.2.2.imp_left fun h => h.1.1⟩

/-- A reset that stops has changed nothing, or it is committed. -/
theorem resetAll_doomed (ns₀ : Ns → Namespace) :
    Triple (On w fun ns => ns = ns₀) (resetAll P) (fun _ => On w Wiped)
      (fun _ f => w.mayFail ∧ On w (fun ns => ns = ns₀ ∨ Doomed ns) f)
      (fun f => w.mayCut ∧ On w (fun ns => ns = ns₀ ∨ Doomed ns) f) := by
  have hmarked : ∀ ns : Ns → Namespace, Marked
      (Function.update ns .control ((ns .control).insert "reset" (asBytes "1"))) := by
    intro ns
    rw [Marked, Function.update_self, AList.lookup_insert]
    simp
  refine Triple.bind (M := fun _ => On w Marked) ?_ fun _ => completeReset_doomed.weaken
    (fun _ => id) (fun _ _ => id) (fun _ f h => ⟨h.1, h.2.1, Or.inr h.2.2⟩)
    (fun f h => ⟨h.1, h.2.1, Or.inr h.2.2⟩)
  refine Triple.ofState fun f hf => ?_
  have hkept : ∀ f' (kept : String → Bool), Wrote f .control
      (if kept "reset" then f.namespaces .control
        else (f.namespaces .control).insert "reset" (asBytes "1")) f' →
      On w (fun ns => ns = ns₀ ∨ Doomed ns) f' := by
    refine fun f' kept hw => hf.wrote hw fun h => ?_
    split_ifs
    · rw [Function.update_eq_self]
      exact Or.inl h
    · exact Or.inr (Or.inl (hmarked _))
  rw [setBlob_eq (by decide)]
  refine (mutate_spec .control _ hf.1).weaken (fun _ => id) ?_ ?_ ?_
  · exact fun _ f' hw => hf.wrote hw fun _ => hmarked _
  · exact fun _ f' ⟨hmay, kept, hw⟩ => ⟨hmay, hkept f' kept hw⟩
  · exact fun f' ⟨hmay, kept, hw⟩ => ⟨hmay, hkept f' kept hw⟩

/-! ### Booting after a reset was committed -/

theorem completePending_unmarked {f : FlashNamespaces}
    (h : (f.namespaces .control).lookup "reset" = none) : completePending P f = (.ok (), f) := by
  have hread : resetPending f = (.ok false, f) := by
    have hblob : readBlob .control "reset" 1 f = (.ok none, f) := by
      rw [readBlob_eq (by simp [h]), h]
    rw [resetPending, Prog.bind_of_ok hblob]
    rfl
  rw [completePending, Prog.bind_of_ok hread]
  rfl

theorem loadDevice_of_lookup_none {f : FlashNamespaces}
    (h : (f.namespaces .device).lookup "current" = none) : loadDevice P f = (.ok none, f) := by
  rw [loadDevice, Prog.bind_of_ok (readBlob_eq (by simp [h])), h]
  rfl

theorem completePending_doomed :
    Triple (fun f => Doomed f.namespaces) (completePending P) (fun _ f => Wiped f.namespaces)
      (fun _ f => Doomed f.namespaces) (fun f => Doomed f.namespaces) := by
  refine Triple.ofState fun f hf => ?_
  rcases hf with hmarked | hwiped
  · obtain ⟨d, hd⟩ := Option.ne_none_iff_exists'.mp hmarked
    by_cases hlen : d.length ≤ 1
    · have hblob : readBlob .control "reset" 1 f = (.ok (some d), f) := by
        rw [readBlob_eq (by simpa [hd] using hlen), hd]
      have hread : resetPending f = (.ok true, f) := by
        rw [resetPending, Prog.bind_of_ok hblob]
        rfl
      refine Triple.bindRead fun g hg => ⟨true, hg ▸ hread, ?_⟩
      exact (completeReset_doomed (w := .rough)).weaken
        (fun _ h => h ▸ hg ▸ ⟨rough_allows _, hmarked⟩) (fun _ _ h => h.2) (fun _ _ h => h.2.2)
        (fun _ h => h.2.2)
    · -- a marker that is too large is refused, and stays
      have hrun : ∃ e, completePending P f = (.error e, f) := by
        simp only [completePending, resetPending, readBlob, Prog.bind_run, Prog.get_run, hd,
          if_pos (show d.length > 1 by omega), Prog.throw_run]
        exact ⟨_, rfl⟩
      obtain ⟨e, hrun⟩ := hrun
      refine Triple.ofRun ?_
      rw [hrun]
      exact Or.inl hmarked
  · refine Triple.ofRun ?_
    rw [completePending_unmarked hwiped.reset]
    exact hwiped

/-- A boot finds a committed reset: it leaves a wiped partition and an empty store, or it stops and
the reset is still committed. -/
theorem openFlash_doomed :
    Triple (fun f => Doomed f.namespaces) (openFlash P) (fun s f => s = {} ∧ Wiped f.namespaces)
      (fun _ f => Doomed f.namespaces) (fun f => Doomed f.namespaces) := by
  refine Triple.bind completePending_doomed fun _ => ?_
  refine Triple.bindRead fun f hf => ⟨none, loadDevice_of_lookup_none ?_, ?_⟩
  · rw [hf.device]
    exact AList.lookup_empty _
  · obtain ⟨b, hrun, hb⟩ := hasSignalRecords_eq (P := P) f
    have hfalse : b = false := by
      rw [Bool.eq_false_iff, ne_eq, hb]
      rintro ⟨kind, hk⟩
      exact hk (AList.keys_eq_nil_iff.mpr (hf.records kind))
    have hdiscard : discardOrphans P f = (.ok (), f) := by
      rw [discardOrphans, Prog.bind_of_ok hrun, hfalse]
      rfl
    refine Triple.bindRead fun g hg => ⟨(), hg ▸ hdiscard, ?_⟩
    exact Triple.pure _ fun _ h => ⟨rfl, by rw [h, hg]; exact hf⟩

/-! ### Booting without a reset -/

section ReadOnly

theorem readBlob_readOnly (n : Ns) (name : String) (maxLen : ℕ) :
    ReadOnly (fun f => f.namespaces n) (readBlob n name maxLen) := by
  refine ⟨fun content => (readBlob n name maxLen ⟨fun _ => content, [], []⟩).1, fun f => ?_⟩
  simp only [readBlob, Prog.bind_run, Prog.get_run]
  cases (f.namespaces n).lookup name with
  | none => rfl
  | some data =>
    simp only
    split_ifs <;> rfl

theorem readBlob_readOnly_all (n : Ns) (name : String) (maxLen : ℕ) :
    ReadOnly FlashNamespaces.namespaces (readBlob n name maxLen) :=
  .widen (g := fun ns => ns n) (readBlob_readOnly n name maxLen)

theorem recordNames_readOnly (n : Ns) :
    ReadOnly FlashNamespaces.namespaces (recordNames P n) :=
  ⟨fun ns => .ok (P.iterOrder (ns n).keys), fun _ => rfl⟩

theorem loadDevice_readOnly : ReadOnly (fun f => f.namespaces .device) (loadDevice P) := by
  refine .bind (readBlob_readOnly _ _ _) fun r => ?_
  cases r with
  | none => exact .pure _
  | some record =>
    refine .bind (.ofExcept _) fun entry => .ite (.throw _) ?_
    cases P.device.fromSlice entry.2 with
    | ok device => exact .pure _
    | error e => exact .throw _

theorem readRecord_readOnly (n : Ns) (label : String) (maxValueLen : ℕ) (name : String) :
    ReadOnly FlashNamespaces.namespaces (readRecord P n label maxValueLen name) := by
  refine .bind (readBlob_readOnly_all _ _ _) fun r => ?_
  cases r with
  | none => exact .throw _
  | some record =>
    exact .bind (.ofExcept _) fun entry => .ite (.throw _) (.ite (.throw _) (.pure _))

theorem visitRecords_readOnly {S : Type} (n : Ns) (label : String) (maxEntries maxValueLen : ℕ)
    (visit : S → Bytes → Bytes → Except StoreError S) (s : S) :
    ReadOnly FlashNamespaces.namespaces
      (visitRecords P n label maxEntries maxValueLen visit s) := by
  have hloop : ∀ names s, ReadOnly FlashNamespaces.namespaces
      (visitNames P n label maxValueLen visit names s) := by
    intro names
    induction names with
    | nil => exact fun s => .pure s
    | cons name names ih =>
      exact fun s => .bind (readRecord_readOnly n label maxValueLen name) fun entry =>
        .bind (.ofExcept _) fun s => ih s
  exact .bind (recordNames_readOnly n) fun names => .ite (.throw _) (hloop names s)

theorem loadRecords_readOnly (n : Ns) (label : String) (maxEntries maxValueLen : ℕ) :
    ReadOnly FlashNamespaces.namespaces (loadRecords P n label maxEntries maxValueLen) := by
  have hloop : ∀ names, ReadOnly FlashNamespaces.namespaces
      (loadNames P n label maxValueLen names) := by
    intro names
    induction names with
    | nil => exact .pure _
    | cons name names ih =>
      exact .bind (readRecord_readOnly n label maxValueLen name) fun entry =>
        .bind ih fun entries => .pure _
  exact .bind (recordNames_readOnly n) fun names => .ite (.throw _) (hloop names)

theorem loadSyncKey_readOnly (keyId : Bytes) :
    ReadOnly FlashNamespaces.namespaces (loadSyncKey P keyId) := by
  have hload : ReadOnly FlashNamespaces.namespaces
      (loadRecord P (.records .syncKeys) keyId maxSignalRecordLen) := by
    refine .bind (readBlob_readOnly_all _ _ _) fun r => ?_
    cases r with
    | none => exact .pure _
    | some record =>
      -- only sessions are remembered
      have hslot : ∀ name, ReadOnly FlashNamespaces.namespaces
          (rememberSessionSlot (.records .syncKeys) name keyId) := fun _ => .pure _
      exact .bind (.ofExcept _) fun entry => .ite (.pure _) (.ite (.throw _)
        (.bind (hslot _) fun _ => .pure _))
  refine .bind hload fun r => ?_
  cases r with
  | none => exact .pure _
  | some value =>
    cases hdec : P.syncKey.fromSlice value with
    | ok key =>
      simp only [hdec]
      exact .pure _
    | error e =>
      simp only [hdec]
      exact .throw _

theorem resolveLatest_readOnly (s : StoreInner Device SyncKey) (newest : Option Bytes) :
    ReadOnly FlashNamespaces.namespaces (resolveLatest P s newest) := by
  have hmarker : ReadOnly FlashNamespaces.namespaces loadLatestSyncKeyId := by
    refine .bind (readBlob_readOnly_all _ _ _) fun r => ?_
    cases r with
    | none => exact .pure _
    | some record => exact .bind (.ofExcept _) fun entry => .ite (.throw _) (.pure _)
  have hrecorded : ∀ recorded, ReadOnly FlashNamespaces.namespaces (loadRecorded P s recorded) := by
    intro recorded
    cases recorded with
    | none => exact .pure _
    | some id =>
      refine .ite (.pure _) (.bind (loadSyncKey_readOnly id).attempt fun r => ?_)
      rcases r with e | key | _ <;> exact .pure _
  refine .bind hmarker.attempt fun r => ?_
  exact .bind (hrecorded _) fun s => .pure _

/-- The replay of a linked device writes nothing. -/
theorem replay_readOnly (device : Device) :
    ReadOnly FlashNamespaces.namespaces (replay P device) := by
  refine .bind (visitRecords_readOnly _ _ _ _ _ _) fun s => ?_
  refine .bind (visitRecords_readOnly _ _ _ _ _ _) fun s => ?_
  refine .bind (loadRecords_readOnly _ _ _ _) fun loaded => .bind (.ofExcept _) fun prekeys => ?_
  refine .bind (loadRecords_readOnly _ _ _ _) fun loaded => .bind (.ofExcept _) fun signed => ?_
  refine .bind (loadRecords_readOnly _ _ _ _) fun loaded => .bind (.ofExcept _) fun sender => ?_
  exact .bind (visitRecords_readOnly _ _ _ _ _ _) fun state => resolveLatest_readOnly _ _

end ReadOnly

/-- The device namespace is as it was and the marker of the latest sync key is gone; only records
may have been erased besides. -/
structure SweptFrom (ns₀ ns : Ns → Namespace) : Prop where
  device : ns .device = ns₀ .device
  control : ns .control = (ns₀ .control).erase "latestsync"

theorem SweptFrom.records {ns₀ ns : Ns → Namespace} (h : SweptFrom ns₀ ns) (kind : Kind)
    (content : Namespace) : SweptFrom ns₀ (Function.update ns (.records kind) content) where
  device := by
    rw [Function.update_of_ne (by simp)]
    exact h.device
  control := by
    rw [Function.update_of_ne (by simp)]
    exact h.control

/-- Two partitions that were swept clean are the same. -/
theorem SweptFrom.ext {ns₀ ns ns' : Ns → Namespace} (h : SweptFrom ns₀ ns)
    (h' : SweptFrom ns₀ ns') (hrec : ∀ kind, ns (.records kind) = ∅)
    (hrec' : ∀ kind, ns' (.records kind) = ∅) : ns = ns' := by
  funext n
  cases n with
  | control => rw [h.control, h'.control]
  | device => rw [h.device, h'.device]
  | records kind => rw [hrec, hrec']

/-- Before and while orphaned records are swept away. -/
def Sweeping (ns₀ ns : Ns → Namespace) : Prop := ns = ns₀ ∨ SweptFrom ns₀ ns

theorem eraseSignal_sweeps (ns₀ : Ns → Namespace) :
    Triple (On w (Sweeping ns₀)) (eraseSignal P)
      (fun _ => On w fun ns => SweptFrom ns₀ ns ∧ ∀ kind, ns (.records kind) = ∅)
      (fun _ f => w.mayFail ∧ On w (Sweeping ns₀) f) (fun f => w.mayCut ∧ On w (Sweeping ns₀) f) := by
  refine (eraseSignal_keeps (w := w) (J := SweptFrom ns₀) ?_ ?_ fun ns kind content h =>
    h.records kind content).weaken (fun _ => id) (fun _ _ => id) ?_ ?_
  · rintro ns (rfl | h) hnone
    · exact ⟨rfl, (AList.erase_of_lookup_none hnone).symm⟩
    · exact h
  · rintro ns (rfl | h)
    · exact ⟨Function.update_of_ne (by decide) .., Function.update_self ..⟩
    · refine ⟨(Function.update_of_ne (by decide) ..).trans h.device, ?_⟩
      rw [Function.update_self, h.control]
      exact AList.erase_of_lookup_none (AList.lookup_erase ..)
  · exact fun _ f h => ⟨h.1, h.2.1, h.2.2.elim id Or.inr⟩
  · exact fun f h => ⟨h.1, h.2.1, h.2.2.elim id Or.inr⟩

/-- A boot without a device sweeps the records away, or it stops while it does so. -/
theorem openFlash_orphans {ns₀ : Ns → Namespace}
    (hreset : (ns₀ .control).lookup "reset" = none)
    (hdevice : (loadDevice P ⟨ns₀, [], []⟩).1 = .ok none)
    (horphan : ∃ kind, (ns₀ (.records kind)).keys ≠ []) :
    Triple (On w (Sweeping ns₀)) (openFlash P)
      (fun s f => s = {} ∧ On w (fun ns => SweptFrom ns₀ ns ∧ ∀ kind, ns (.records kind) = ∅) f)
      (fun _ f => w.mayFail ∧ On w (Sweeping ns₀) f) (fun f => w.mayCut ∧ On w (Sweeping ns₀) f) := by
  refine Triple.bindRead fun f hf => ⟨(), completePending_unmarked ?_, ?_⟩
  · rcases hf.2 with h | h
    · rw [h]
      exact hreset
    · rw [h.control, AList.lookup_erase_ne (by decide)]
      exact hreset
  have hload : loadDevice P f = (.ok none, f) := by
    have heq : f.namespaces .device = ns₀ .device := hf.2.elim (fun h => by rw [h]) fun h => h.device
    rw [← hdevice]
    exact loadDevice_readOnly.run_eq heq
  refine Triple.bindRead fun g hg => ⟨none, hg ▸ hload, ?_⟩
  refine Triple.bind (M := fun _ => On w fun ns => SweptFrom ns₀ ns ∧ ∀ kind, ns (.records kind) = ∅)
    ?_ fun _ => Triple.pure _ fun _ h => ⟨rfl, h⟩
  subst hg
  obtain ⟨b, hrun, hb⟩ := hasSignalRecords_eq (P := P) g
  refine Triple.bindRead fun g' hg' => ⟨b, hg' ▸ hrun, Triple.ite (fun h => ?_) fun h => ?_⟩
  · subst hg'
    exact (eraseSignal_sweeps ns₀).pre fun _ h => h ▸ hf
  · -- nothing is left to sweep, so an earlier boot has begun
    subst hg'
    rw [hb] at h
    push Not at h
    have hswept : SweptFrom ns₀ g'.namespaces := by
      refine hf.2.resolve_left fun heq => ?_
      obtain ⟨kind, hk⟩ := horphan
      exact hk (heq ▸ h kind)
    exact Triple.ofRun ⟨hf.1, hswept, fun kind => AList.keys_eq_nil_iff.mp (h kind)⟩

/-! ### The first boot that succeeds -/

/-- From the content `ns`, some attempts to open that did not succeed lead to `ns'`. -/
inductive Attempts (P : Platform Device SyncKey) : (Ns → Namespace) → (Ns → Namespace) → Prop
  | nil (ns : Ns → Namespace) : Attempts P ns ns
  | cons {ns ns' : Ns → Namespace} (fates : List Fate)
      (hfail : ∀ s, (openPartition P ns fates).1 ≠ .ok s)
      (hrest : Attempts P (openPartition P ns fates).2.namespaces ns') : Attempts P ns ns'

theorem Attempts.keeps {K : (Ns → Namespace) → Prop} {ns ns' : Ns → Namespace}
    (h : Attempts P ns ns') (hns : K ns)
    (hK : ∀ ns fates, K ns → (∀ s, (openPartition P ns fates).1 ≠ .ok s) →
      K (openPartition P ns fates).2.namespaces) : K ns' := by
  induction h with
  | nil ns => exact hns
  | cons fates hfail _ ih => exact ih (hK _ fates hns hfail)

/-- A boot that does not succeed keeps what its triple says. -/
theorem openPartition_keeps {K : (Ns → Namespace) → Prop}
    {Q : StoreInner Device SyncKey → FlashNamespaces → Prop}
    (h : Triple (fun f => K f.namespaces) (openFlash P) Q (fun _ f => K f.namespaces)
      (fun f => K f.namespaces)) (ns : Ns → Namespace) (fates : List Fate) (hns : K ns)
    (hfail : ∀ s, (openPartition P ns fates).1 ≠ .ok s) :
    K (openPartition P ns fates).2.namespaces := by
  have hrun := h ⟨ns, [], fates⟩ hns
  unfold openPartition at hfail ⊢
  generalize openFlash P ⟨ns, [], fates⟩ = r at hrun hfail
  rcases r with ⟨s | e | _, f⟩
  · exact absurd rfl (hfail s)
  · exact hrun
  · exact hrun

/-- The first successful boot after a committed reset. -/
theorem open_doomed {ns ns' : Ns → Namespace} (hns : Doomed ns) (h : Attempts P ns ns')
    {fates : List Fate} {s : StoreInner Device SyncKey} {f : FlashNamespaces}
    (hopen : openPartition P ns' fates = (.ok s, f)) : s = {} ∧ Wiped f.namespaces := by
  have hns' : Doomed ns' := h.keeps hns (openPartition_keeps openFlash_doomed)
  have hrun := openFlash_doomed (P := P) ⟨ns', [], fates⟩ hns'
  rw [openPartition] at hopen
  rw [hopen] at hrun
  exact hrun

/-- A content on which booting writes nothing stays as it is. -/
theorem open_fixed {ns₀ ns' : Ns → Namespace} {o : Outcome StoreError (StoreInner Device SyncKey)}
    (hfixed : ∀ f, f.namespaces = ns₀ → openFlash P f = (o, f)) (h : Attempts P ns₀ ns')
    {fates : List Fate} {s : StoreInner Device SyncKey} {f : FlashNamespaces}
    (hopen : openPartition P ns' fates = (.ok s, f)) :
    ∃ f', openPartition P ns₀ [] = (.ok s, f') ∧ f.namespaces = f'.namespaces := by
  have hns' : ns' = ns₀ := by
    refine h.keeps (K := fun ns => ns = ns₀) rfl fun ns fates hns _ => ?_
    rw [openPartition, hfixed _ hns]
    exact hns
  subst hns'
  rw [openPartition, hfixed _ rfl] at hopen
  obtain ⟨ho, rfl⟩ := Prod.mk.inj hopen
  exact ⟨⟨ns', [], []⟩, by rw [openPartition, hfixed _ rfl, ho], rfl⟩

theorem openFlash_unmarked {f : FlashNamespaces} (h : ¬Marked f.namespaces) :
    openFlash P f = (loadDevice P >>= fun device => match device with
      | some device => replay P device
      | none => discardOrphans P >>= fun _ => pure {}) f :=
  Prog.bind_of_ok (completePending_unmarked (not_not.mp h))

/-- Without a reset, the first successful boot gives what a boot would have given at once. -/
theorem open_unmarked {ns₀ ns' : Ns → Namespace} (hns : ¬Marked ns₀) (h : Attempts P ns₀ ns')
    {fates : List Fate} {s : StoreInner Device SyncKey} {f : FlashNamespaces}
    (hopen : openPartition P ns' fates = (.ok s, f)) :
    ∃ f', openPartition P ns₀ [] = (.ok s, f') ∧ f.namespaces = f'.namespaces := by
  have hload : ∀ f, f.namespaces = ns₀ → loadDevice P f = ((loadDevice P ⟨ns₀, [], []⟩).1, f) :=
    fun f hf => loadDevice_readOnly.run_eq (by rw [hf])
  cases hdevice : (loadDevice P ⟨ns₀, [], []⟩).1 with
  | error e =>
    refine open_fixed (o := .error e) (fun f hf => ?_) h hopen
    rw [openFlash_unmarked (hf ▸ hns), Prog.bind_run, hload f hf, hdevice]
  | halted =>
    refine open_fixed (o := .halted) (fun f hf => ?_) h hopen
    rw [openFlash_unmarked (hf ▸ hns), Prog.bind_run, hload f hf, hdevice]
  | ok device =>
    cases device with
    | some device =>
      refine open_fixed (o := (replay P device ⟨ns₀, [], []⟩).1) (fun f hf => ?_) h hopen
      rw [openFlash_unmarked (hf ▸ hns), Prog.bind_run, hload f hf, hdevice]
      exact (replay_readOnly device).run_eq hf
    | none =>
      by_cases horphan : ∃ kind, (ns₀ (.records kind)).keys ≠ []
      · -- the records no device owns are swept away, in one boot or in several
        have hsweep : ∀ w, Triple (On w (Sweeping ns₀)) (openFlash P) _ _ _ := fun w =>
          openFlash_orphans (not_not.mp hns) hdevice horphan
        have hns' : Sweeping ns₀ ns' := by
          refine h.keeps (Or.inl rfl) (openPartition_keeps ((hsweep .rough).weaken
            (fun f hf => ⟨rough_allows _, hf⟩) (fun _ _ => id) (fun _ _ h => h.2.2)
            (fun _ h => h.2.2)))
        have hlast := hsweep .rough ⟨ns', [], fates⟩ ⟨rough_allows _, hns'⟩
        rw [openPartition] at hopen
        rw [hopen] at hlast
        obtain ⟨rfl, -, hswept, hrec⟩ := hlast
        have hfirst := hsweep .calm ⟨ns₀, [], []⟩ ⟨(fun _ h => nomatch h), Or.inl rfl⟩
        unfold openPartition
        generalize openFlash P ⟨ns₀, [], []⟩ = r at hfirst
        rcases r with ⟨s' | e | _, f'⟩
        · obtain ⟨rfl, -, hswept', hrec'⟩ := hfirst
          exact ⟨f', rfl, hswept.ext hswept' hrec hrec'⟩
        · exact hfirst.1.elim
        · exact hfirst.1.elim
      · refine open_fixed (o := .ok {}) (fun f hf => ?_) h hopen
        obtain ⟨b, hrun, hb⟩ := hasSignalRecords_eq (P := P) f
        have hfalse : b = false := by
          rw [Bool.eq_false_iff, ne_eq, hb, hf]
          exact horphan
        rw [openFlash_unmarked (hf ▸ hns), Prog.bind_of_ok ((hload f hf).trans (by rw [hdevice]))]
        simp only [discardOrphans, Prog.bind_run, hrun, hfalse]
        rfl

/-- **Factory reset is crash-safe.**  Whatever the partition held and wherever `reset_all` and later
boots were stopped, the first boot that succeeds gives what a boot would have given before the
reset, which happens only if `reset_all` did not return and the marker was not committed; or it
gives an empty store on a wiped partition. -/
theorem reset_is_crash_safe (P : Platform Device SyncKey) (ns₀ : Ns → Namespace)
    (slots : SessionSlots) (fates : List Fate) {ns' : Ns → Namespace}
    (hattempts : Attempts P (resetAll P ⟨ns₀, slots, fates⟩).2.namespaces ns')
    {fates' : List Fate} {s : StoreInner Device SyncKey} {f : FlashNamespaces}
    (hopen : openPartition P ns' fates' = (.ok s, f)) :
    ((resetAll P ⟨ns₀, slots, fates⟩).1 ≠ .ok () ∧
      (resetAll P ⟨ns₀, slots, fates⟩).2.namespaces = ns₀ ∧ ¬Marked ns₀ ∧
      ∃ f', openPartition P ns₀ [] = (.ok s, f') ∧ f.namespaces = f'.namespaces) ∨
    (s = {} ∧ Wiped f.namespaces) := by
  have hreset : (resetAll P ⟨ns₀, slots, fates⟩).1 ≠ .ok () ∧
      (resetAll P ⟨ns₀, slots, fates⟩).2.namespaces = ns₀ ∨
      Doomed (resetAll P ⟨ns₀, slots, fates⟩).2.namespaces := by
    have hrun := resetAll_doomed (P := P) (w := .rough) ns₀ ⟨ns₀, slots, fates⟩
      ⟨rough_allows _, rfl⟩
    generalize resetAll P ⟨ns₀, slots, fates⟩ = r at hrun
    rcases r with ⟨_ | e | _, f⟩
    · exact Or.inr (Or.inr hrun.2)
    · exact hrun.2.2.imp_left fun h => ⟨nofun, h⟩
    · exact hrun.2.2.imp_left fun h => ⟨nofun, h⟩
  rcases hreset with ⟨hstopped, hsame⟩ | hdoomed
  · rw [hsame] at hattempts ⊢
    by_cases hmarked : Marked ns₀
    · exact Or.inr (open_doomed (Or.inl hmarked) hattempts hopen)
    · exact Or.inl ⟨hstopped, rfl, hmarked, open_unmarked hmarked hattempts hopen⟩
  · exact Or.inr (open_doomed hdoomed hattempts hopen)

/-- The power goes right after the marker is committed. -/
def interruptedReset : Ns → Namespace :=
  (resetAll aliceBoard ⟨linkedStore.flash.namespaces, [], [.done, .cut fun _ => true]⟩).2.namespaces

/-- It goes again while the next boot erases the device. -/
def interruptedBoot : Ns → Namespace :=
  (openPartition aliceBoard interruptedReset [.cut fun _ => false]).2.namespaces

theorem linkedStore_reset_interrupted :
    Marked interruptedReset ∧ ∃ s f,
      openPartition aliceBoard interruptedBoot [] = (.ok s, f) ∧ s = {} ∧ Wiped f.namespaces := by
  have hmarked : Marked interruptedReset := by decide +kernel
  have hunmarked : ¬Marked linkedStore.flash.namespaces := by decide +kernel
  have hattempts : Attempts aliceBoard interruptedReset interruptedBoot :=
    .cons [.cut fun _ => false] (fun _ h => nomatch h) (.nil _)
  obtain ⟨s, f, hopen⟩ : ∃ s f, openPartition aliceBoard interruptedBoot [] = (.ok s, f) :=
    ⟨{}, _, rfl⟩
  refine ⟨hmarked, s, f, hopen, (reset_is_crash_safe aliceBoard linkedStore.flash.namespaces []
    [.done, .cut fun _ => true] hattempts hopen).resolve_left fun h => hunmarked ?_⟩
  rw [← h.2.1]
  exact hmarked

end WhatsappEsp32
