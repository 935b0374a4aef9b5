import WhatsappEsp32.Storage.Image

/-!
# Specifications of the flash operations

Each operation of `FlashNamespaces` against the abstract content of the partition.  `Shows w m f`
says that the flash state `f` keeps its invariant and holds the content `m`; the ghost `w` bounds
what the script of fates may do to the primitives.  On success an operation moves the content from
`m` to the intended `m'`.  If it fails or the power goes, the content is still `m`, or a primitive
did not complete and the content is `m` or `m'`.
-/

namespace WhatsappEsp32

open CrashLogic FlashNamespaces

/-- What may happen to the primitives of a run. -/
structure Weather where
  mayFail : Prop
  mayCut : Prop

/-- Every primitive succeeds. -/
def Weather.calm : Weather := ⟨False, False⟩

/-- Primitives succeed or are cut off by a power loss. -/
def Weather.cuts : Weather := ⟨False, True⟩

/-- Anything may happen. -/
def Weather.rough : Weather := ⟨True, True⟩

/-- The fate is possible in this weather. -/
def Weather.Admits (w : Weather) : Fate → Prop
  | .done => True
  | .fails _ _ => w.mayFail
  | .cut _ => w.mayCut

/-- The script keeps to the weather. -/
def Weather.Allows (w : Weather) (fates : List Fate) : Prop := ∀ fate ∈ fates, w.Admits fate

variable {Device SyncKey : Type} {P : Platform Device SyncKey} {w : Weather} {m : Image Device}

variable (P) in
/-- The flash state keeps its invariant and holds the content `m`. -/
structure Shows (w : Weather) (m : Image Device) (f : FlashNamespaces) : Prop where
  ok : FlashOk P f
  image_eq : image P f.namespaces = m
  script : w.Allows f.fates

variable (P) in
/-- A primitive did not complete, which it `may`, and the content is the old or the new one. -/
def Torn (w : Weather) (may : Prop) (m m' : Image Device) (f : FlashNamespaces) : Prop :=
  may ∧ (Shows P w m f ∨ Shows P w m' f)

/-! ### Primitives -/

/-- `f'` is `f` with new content in one namespace. -/
structure Wrote (f : FlashNamespaces) (n : Ns) (content : Namespace) (f' : FlashNamespaces) :
    Prop where
  namespaces : f'.namespaces = Function.update f.namespaces n content
  slots : f'.validatedSessions = f.validatedSessions
  fates : f'.fates ⊆ f.fates

theorem wrote_set (f : FlashNamespaces) (n : Ns) (content : Namespace) :
    Wrote f n content (f.set n content) := ⟨rfl, rfl, fun _ => id⟩

theorem wrote_script {f : FlashNamespaces} (n : Ns) (content : Namespace) {fate : Fate}
    {fates : List Fate} (h : f.fates = fate :: fates) :
    Wrote f n content { f.set n content with fates := fates } :=
  ⟨rfl, rfl, fun x hx => by rw [h]; exact List.mem_cons_of_mem _ hx⟩

theorem Weather.Allows.wrote {f f' : FlashNamespaces} {n : Ns} {content : Namespace}
    (h : w.Allows f.fates) (hw : Wrote f n content f') : w.Allows f'.fates :=
  fun fate hfate => h fate (hw.fates hfate)

theorem mutate_spec (n : Ns) (after : (String → Bool) → Namespace → Namespace)
    {f : FlashNamespaces} (hs : w.Allows f.fates) :
    Triple (fun s => s = f) (mutate n after)
      (fun _ => Wrote f n (after (fun _ => false) (f.namespaces n)))
      (fun _ f' => w.mayFail ∧ ∃ kept, Wrote f n (after kept (f.namespaces n)) f')
      (fun f' => w.mayCut ∧ ∃ kept, Wrote f n (after kept (f.namespaces n)) f') := by
  rintro _ rfl
  unfold mutate
  split
  next h => exact wrote_set _ _ _
  next fates h => exact wrote_script _ _ h
  next error kept fates h =>
    exact ⟨hs (.fails error kept) (by simp [h]), kept, wrote_script _ _ h⟩
  next kept fates h => exact ⟨hs (.cut kept) (by simp [h]), kept, wrote_script _ _ h⟩

theorem setBlob_eq {name : String} (h : '\x00' ∉ name.toList) (n : Ns) (value : Bytes) :
    setBlob n name value = nvsSetBlob n name value := if_neg h

theorem readBlob_eq {f : FlashNamespaces} {n : Ns} {name : String} {maxLen : ℕ}
    (h : ∀ d, (f.namespaces n).lookup name = some d → d.length ≤ maxLen) :
    readBlob n name maxLen f = (.ok ((f.namespaces n).lookup name), f) := by
  rw [readBlob, Prog.bind_of_ok (Prog.get_run f)]
  cases hl : (f.namespaces n).lookup name with
  | none => rfl
  | some d =>
    have hd := h d hl
    simp only
    rw [if_neg (by omega)]
    rfl

theorem recordNames_eq (n : Ns) (f : FlashNamespaces) :
    recordNames P n f = (.ok (P.iterOrder (f.namespaces n).keys), f) := rfl

theorem recordCount_eq (n : Ns) (f : FlashNamespaces) :
    recordCount n f = (.ok (f.namespaces n).size, f) := rfl

/-! ### Writing one namespace -/

theorem image_update_records (ns : Ns → Namespace) (kind : Kind) (content : Namespace) :
    image P (Function.update ns (.records kind) content) =
      { image P ns with
        records := Function.update (image P ns).records kind (stored P content) } := by
  ext1
  · simp [image]
  · simp [image]
  · simp [image]
  · funext kind'
    by_cases h : kind' = kind
    · subst h
      simp [image]
    · simp [image, h]

theorem DurableOk.update_records {ns : Ns → Namespace} (h : DurableOk P ns) {kind : Kind}
    {content : Namespace} (hc : NamespaceOk P kind content) :
    DurableOk P (Function.update ns (.records kind) content) where
  kinds kind' := by
    by_cases hk : kind' = kind
    · subst hk
      simpa using hc
    · simpa [hk] using h.kinds kind'
  device := by simpa using h.device
  control := by simpa using h.control

/-- Replacing the content of a record namespace by one that keeps the invariant. -/
theorem Shows.wrote_records {f f' : FlashNamespaces} (h : Shows P w m f) {kind : Kind}
    {content : Namespace} (hw : Wrote f (.records kind) content f')
    (hc : NamespaceOk P kind content)
    (hs : kind = .sessions → SlotsOk P f.validatedSessions content) :
    Shows P w { m with records := Function.update m.records kind (stored P content) } f' where
  ok := by
    refine ⟨?_, ?_⟩
    · rw [hw.namespaces]
      exact h.ok.durable.update_records hc
    · rw [hw.namespaces, hw.slots]
      by_cases hk : kind = .sessions
      · subst hk
        simpa using hs rfl
      · simpa [Ne.symm hk] using h.ok.slots
  image_eq := by
    rw [hw.namespaces, image_update_records, h.image_eq]
  script := h.script.wrote hw

theorem Shows.nsOk {f : FlashNamespaces} (h : Shows P w m f) (kind : Kind) :
    NamespaceOk P kind (f.namespaces (.records kind)) := h.ok.durable.kinds kind

theorem Shows.records_eq {f : FlashNamespaces} (h : Shows P w m f) (kind : Kind) :
    m.records kind = stored P (f.namespaces (.records kind)) := by
  rw [← h.image_eq]
  rfl

/-! ### Session slots -/

theorem mem_remember {slots : SessionSlots} {name : String} {key : Bytes} {slot : String × Bytes}
    (h : slot ∈ slots.remember name key) : slot ∈ slots ∨ slot = (name, key) := by
  unfold SessionSlots.remember at h
  simp only at h
  rcases List.mem_append.mp h with h | h
  · left
    split_ifs at h
    · exact List.mem_of_mem_eraseP (List.mem_of_mem_tail h)
    · exact List.mem_of_mem_eraseP h
  · right
    simpa using h

theorem SlotsOk.remember {slots : SessionSlots} {sessions : Namespace} {k v : Bytes}
    (h : SlotsOk P slots sessions) (hk : k.length ≤ maxLogicalKeyLen)
    (hl : sessions.lookup (P.recordName k) = some (record k v)) :
    SlotsOk P (slots.remember (P.recordName k) k) sessions := by
  intro slot hslot
  rcases mem_remember hslot with hs | rfl
  · exact h slot hs
  · exact ⟨rfl, hk, v, hl⟩

/-- Overwriting a record keeps the slots: a slot with its name has its key. -/
theorem SlotsOk.insert {slots : SessionSlots} {sessions : Namespace} {k : Bytes}
    (h : SlotsOk P slots sessions) (hk : k.length ≤ maxLogicalKeyLen)
    (hown : OwnSlot P sessions k) (v : Bytes) :
    SlotsOk P slots (sessions.insert (P.recordName k) (record k v)) := by
  intro slot hslot
  obtain ⟨hname, hlen, v₀, hl⟩ := h slot hslot
  refine ⟨hname, hlen, ?_⟩
  rw [AList.lookup_insert_eq]
  split_ifs with hn
  · refine ⟨v, ?_⟩
    rw [hn] at hl
    rcases hown with ho | ⟨v₁, ho⟩
    · rw [ho] at hl
      cases hl
    · rw [ho] at hl
      rw [(record_inj hk hlen (Option.some.inj hl)).1]
  · exact ⟨v₀, hl⟩

theorem rememberSessionSlot_spec {kind : Kind} {k v : Bytes} {f : FlashNamespaces}
    {E : StoreError → FlashNamespaces → Prop} {C : FlashNamespaces → Prop}
    (h : Shows P w m f) (hk : k.length ≤ maxLogicalKeyLen)
    (hl : (f.namespaces (.records kind)).lookup (P.recordName k) = some (record k v)) :
    Triple (fun s => s = f) (rememberSessionSlot (.records kind) (P.recordName k) k)
      (fun _ f' => Shows P w m f' ∧ f'.namespaces = f.namespaces) E C := by
  unfold rememberSessionSlot
  split_ifs with hkind
  · exact Triple.ofRun ⟨h, rfl⟩
  · have hkind : kind = .sessions := by simpa using hkind
    subst hkind
    exact Triple.ofRun
      ⟨⟨⟨h.ok.durable, h.ok.slots.remember hk hl⟩, h.image_eq, h.script⟩, rfl⟩

/-- A cached slot tells the truth about the slot of a session. -/
theorem cachedSlot_eq_some {kind : Kind} {k : Bytes} {f : FlashNamespaces} {b : Bool}
    (h : Shows P w m f) (hc : cachedSlot P (.records kind) k f = some b) :
    ∃ k' v, (f.namespaces (.records kind)).lookup (P.recordName k) = some (record k' v) ∧
      k'.length ≤ maxLogicalKeyLen ∧ b = decide (k' = k) := by
  unfold cachedSlot at hc
  split_ifs at hc with hkind
  cases hkind
  unfold SessionSlots.lookupMatches at hc
  obtain ⟨slot, hfind, hb⟩ := Option.map_eq_some_iff.mp hc
  obtain ⟨-, hlen, v, hl⟩ := h.ok.slots slot (List.mem_of_find?_eq_some hfind)
  have hname : slot.1 = P.recordName k := by simpa using List.find?_some hfind
  rw [hname] at hl
  exact ⟨slot.2, v, hl, hlen, hb.symm⟩

/-! ### Single records -/

variable (P) in
/-- `name` is the slot of `k`, and a record of `k` may be written there. -/
structure Admits (kind : Kind) (k : Bytes) (name : String) (f : FlashNamespaces) : Prop where
  name_eq : name = P.recordName k
  length_le : k.length ≤ maxLogicalKeyLen
  own : OwnSlot P (f.namespaces (.records kind)) k
  room : (∃ r, (f.namespaces (.records kind)).lookup (P.recordName k) = some r) ∨
    (f.namespaces (.records kind)).size < kind.maxEntries

theorem signal_readBlob_eq {f : FlashNamespaces} {kind : Kind} (h : Shows P w m f) (name : String) :
    readBlob (.records kind) name (recordHeaderLen + maxLogicalKeyLen + maxSignalRecordLen) f =
      (.ok ((f.namespaces (.records kind)).lookup name), f) := by
  apply readBlob_eq
  intro d hd
  obtain ⟨k, v, rfl, -, hk, -, hv⟩ := (h.nsOk kind).recordOk _ _ hd
  have hv' := hv.length_le
  rw [record_length, recordHeaderLen]
  omega

theorem checkFlashSlot_spec (kind : Kind) (k : Bytes) (hk : k.length ≤ maxLogicalKeyLen)
    (label : String) :
    Triple (Shows P w m) (checkFlashSlot P (.records kind) k label kind.maxEntries)
      (fun name f => Shows P w m f ∧ Admits P kind k name f) (fun _ => Shows P w m)
      (fun _ => False) := by
  refine Triple.bindRead fun f hf => ⟨_, signal_readBlob_eq hf _, ?_⟩
  rcases (hf.nsOk kind).slot_cases k with ⟨hl, -⟩ | ⟨v, hl, -, -, -, -⟩ | ⟨k', v, hl, hne, hk', -, -⟩
  · rw [hl]
    refine Triple.bindRead fun g hg => ⟨_, recordCount_eq _ _, ?_⟩
    subst hg
    unfold ensureInsertCapacity
    split_ifs with hfull
    · exact Triple.ofRun hf
    · have hroom : (g.namespaces (.records kind)).size < kind.maxEntries := by simpa using hfull
      exact Triple.ofRun ⟨hf, rfl, hk, Or.inl hl, Or.inr hroom⟩
  · simp only [hl, decodeRecord_record hk, Prog.ofExcept_ok_bind]
    rw [if_neg (by simp)]
    refine Triple.bind (rememberSessionSlot_spec hf hk hl) fun _ => Triple.pure _ ?_
    rintro f' ⟨hf', hns⟩
    refine ⟨hf', rfl, hk, Or.inr ⟨v, ?_⟩, Or.inl ⟨record k v, ?_⟩⟩ <;> rw [hns] <;> exact hl
  · simp only [hl, decodeRecord_record hk', Prog.ofExcept_ok_bind]
    rw [if_pos hne]
    exact Triple.ofRun hf

/-- A record that passes the check may be written into its slot. -/
theorem checkRecordSlot_spec (kind : Kind) (k : Bytes) (valueLen : ℕ) (label : String) :
    Triple (Shows P w m) (checkRecordSlot P (.records kind) k valueLen label kind.maxEntries)
      (fun name f => Shows P w m f ∧ Admits P kind k name f ∧ valueLen ≤ maxSignalRecordLen)
      (fun _ => Shows P w m) (fun _ => False) := by
  unfold checkRecordSlot
  split_ifs with hv hk
  · exact Triple.throw _ fun _ => id
  · exact Triple.throw _ fun _ => id
  refine Triple.bindRead fun f hf => ⟨f, rfl, ?_⟩
  cases hc : cachedSlot P (.records kind) k f with
  | none =>
    refine (checkFlashSlot_spec kind k (by omega) label).weaken (P := Shows P w m) ?_ ?_ ?_ ?_
    · rintro _ rfl
      exact hf
    · exact fun name g hg => ⟨hg.1, hg.2, by omega⟩
    · exact fun _ _ => id
    · exact fun _ => id
  | some b =>
    obtain ⟨k', v, hl, hk', rfl⟩ := cachedSlot_eq_some hf hc
    by_cases hkk : k' = k
    · subst hkk
      simp only [decide_true]
      exact Triple.ofRun ⟨hf, ⟨rfl, hk', Or.inr ⟨v, hl⟩, Or.inl ⟨_, hl⟩⟩, by omega⟩
    · simp only [hkk, decide_false]
      exact Triple.ofRun hf

/-- Writing a record into a slot that admits it. -/
theorem setBlob_spec (kind : Kind) (k v : Bytes) (name : String) (hkey : kind.KeyOk k)
    (hv : kind.ValueOk P v) :
    Triple (fun f => Shows P w m f ∧ Admits P kind k name f)
      (setBlob (.records kind) name (record k v)) (fun _ => Shows P w (m.put kind k v))
      (fun _ => Torn P w w.mayFail m (m.put kind k v)) (Torn P w w.mayCut m (m.put kind k v)) := by
  refine Triple.ofState fun f ⟨hf, ha⟩ => ?_
  obtain ⟨rfl, hk, hown, hroom⟩ := ha
  have hput : ∀ f', Wrote f (.records kind)
      ((f.namespaces (.records kind)).insert (P.recordName k) (record k v)) f' →
      Shows P w (m.put kind k v) f' := by
    intro f' hw
    have hs := hf.wrote_records hw ((hf.nsOk kind).insert hk hkey hv hroom) (by
      rintro rfl
      exact hf.ok.slots.insert hk hown v)
    rwa [stored_insert hk hown, ← hf.records_eq] at hs
  have hkeep : ∀ f', Wrote f (.records kind) (f.namespaces (.records kind)) f' →
      Shows P w m f' := by
    intro f' hw
    have hs := hf.wrote_records hw (hf.nsOk kind) (by
      rintro rfl
      exact hf.ok.slots)
    rwa [← hf.records_eq, Function.update_eq_self] at hs
  have htorn : ∀ (may : Prop) f', (may ∧ ∃ kept : String → Bool, Wrote f (.records kind)
      (if kept (P.recordName k) then f.namespaces (.records kind) else
        (f.namespaces (.records kind)).insert (P.recordName k) (record k v)) f') →
      Torn P w may m (m.put kind k v) f' := by
    rintro may f' ⟨hmay, kept, hw⟩
    refine ⟨hmay, ?_⟩
    split_ifs at hw
    · exact Or.inl (hkeep f' hw)
    · exact Or.inr (hput f' hw)
  rw [setBlob_eq (P.recordName_noNul k)]
  refine (mutate_spec _ _ hf.script).weaken (fun _ => id) ?_ (fun _ => htorn _) (htorn _)
  intro _ f' hw
  exact hput f' (by simpa using hw)

theorem encode_admitted {kind : Kind} {k : Bytes} {name : String} {f : FlashNamespaces}
    (h : Admits P kind k name f) (v : Bytes) : encodeRecord k v = .ok (record k v) :=
  encodeRecord_of_le h.length_le v

theorem prepareRecord_spec (kind : Kind) (k v : Bytes) (label : String) :
    Triple (Shows P w m) (prepareRecord P (.records kind) k v label kind.maxEntries)
      (fun p f => Shows P w m f ∧ Admits P kind k p.1 f ∧ p.2 = record k v ∧
        v.length ≤ maxSignalRecordLen)
      (fun _ => Shows P w m) (fun _ => False) := by
  refine Triple.bind (checkRecordSlot_spec kind k v.length label) fun name => ?_
  refine Triple.ofState fun f ⟨hf, ha, hv⟩ => ?_
  rw [encode_admitted ha, Prog.ofExcept_ok_bind]
  exact Triple.ofRun ⟨hf, ha, rfl, hv⟩

theorem putRecord_spec (kind : Kind) (k v : Bytes) (label : String) (hkey : kind.KeyOk k)
    (hv : v.length ≤ maxSignalRecordLen → kind.ValueOk P v) :
    Triple (Shows P w m) (putRecord P (.records kind) k v label kind.maxEntries)
      (fun _ => Shows P w (m.put kind k v))
      (fun _ f => Shows P w m f ∨ Torn P w w.mayFail m (m.put kind k v) f)
      (Torn P w w.mayCut m (m.put kind k v)) := by
  refine Triple.bind ((prepareRecord_spec kind k v label).weaken (fun _ => id) (fun _ _ => id)
    (fun _ _ => Or.inl) (fun _ => False.elim)) ?_
  rintro ⟨name, r⟩
  refine Triple.ofState fun f ⟨hf, ha, hr, hlen⟩ => ?_
  simp only at ha hr
  subst hr
  refine (setBlob_spec kind k v name hkey (hv hlen)).weaken ?_ (fun _ _ => id)
    (fun _ _ => Or.inr) (fun _ => id)
  rintro _ rfl
  exact ⟨hf, ha⟩

theorem Image.delete_of_none {kind : Kind} {k : Bytes} (h : m.records kind k = none) :
    m.delete kind k = m := by
  rw [Image.delete, ← h, Function.update_eq_self, Function.update_eq_self]

/-- Removing the blob of a stored record. -/
theorem nvsRemove_spec (kind : Kind) (k v : Bytes) {f : FlashNamespaces} (hf : Shows P w m f)
    (hk : k.length ≤ maxLogicalKeyLen)
    (hl : (f.namespaces (.records kind)).lookup (P.recordName k) = some (record k v))
    (hslots : kind = .sessions → f.validatedSessions = []) :
    Triple (fun s => s = f) (nvsRemove (.records kind) (P.recordName k))
      (fun _ => Shows P w (m.delete kind k)) (fun _ => Torn P w w.mayFail m (m.delete kind k))
      (Torn P w w.mayCut m (m.delete kind k)) := by
  have hempty : ∀ content, kind = .sessions → SlotsOk P f.validatedSessions content := by
    intro content hkind slot hslot
    rw [hslots hkind] at hslot
    cases hslot
  have hdel : ∀ f', Wrote f (.records kind)
      ((f.namespaces (.records kind)).erase (P.recordName k)) f' →
      Shows P w (m.delete kind k) f' := by
    intro f' hw
    have hs := hf.wrote_records hw ((hf.nsOk kind).erase _) (hempty _)
    rwa [stored_erase hk (Or.inr ⟨v, hl⟩), ← hf.records_eq] at hs
  have htorn : ∀ (may : Prop) f', (may ∧ ∃ kept : String → Bool, Wrote f (.records kind)
      (if kept (P.recordName k) then f.namespaces (.records kind) else
        (f.namespaces (.records kind)).erase (P.recordName k)) f') →
      Torn P w may m (m.delete kind k) f' := by
    rintro may f' ⟨hmay, kept, hw⟩
    refine ⟨hmay, ?_⟩
    split_ifs at hw
    · have hs := hf.wrote_records hw (hf.nsOk kind) (hempty _)
      rw [← hf.records_eq, Function.update_eq_self] at hs
      exact Or.inl hs
    · exact Or.inr (hdel f' hw)
  refine (mutate_spec _ _ hf.script).weaken (fun _ => id) ?_ (fun _ => htorn _) (htorn _)
  intro _ f' hw
  exact hdel f' (by simpa using hw)

theorem Shows.clearSlots {f : FlashNamespaces} (h : Shows P w m f) :
    Shows P w m f.clearSlots where
  ok := ⟨h.ok.durable, fun _ hslot => by cases hslot⟩
  image_eq := h.image_eq
  script := h.script

theorem forgetSessionSlots_spec (kind : Kind) {E : StoreError → FlashNamespaces → Prop}
    {C : FlashNamespaces → Prop} :
    Triple (Shows P w m) (forgetSessionSlots (.records kind))
      (fun _ f => Shows P w m f ∧ (kind = .sessions → f.validatedSessions = [])) E C := by
  unfold forgetSessionSlots
  split_ifs with hkind
  · exact Triple.modify _ fun f hf => ⟨hf.clearSlots, fun _ => rfl⟩
  · exact Triple.pure _ fun f hf => ⟨hf, fun hs => absurd (congrArg Ns.records hs) hkind⟩

theorem deleteRecord_spec (kind : Kind) (k : Bytes) (label : String) :
    Triple (Shows P w m) (deleteRecord P (.records kind) k label)
      (fun _ => Shows P w (m.delete kind k))
      (fun _ f => Shows P w m f ∨ Torn P w w.mayFail m (m.delete kind k) f)
      (Torn P w w.mayCut m (m.delete kind k)) := by
  refine Triple.bind (forgetSessionSlots_spec kind) fun _ => ?_
  refine Triple.bindRead fun f ⟨hf, hslots⟩ => ⟨_, signal_readBlob_eq hf _, ?_⟩
  rcases (hf.nsOk kind).slot_cases k with ⟨hl, hs⟩ | ⟨v, hl, hk, -, -, -⟩ |
    ⟨k', v, hl, hne, hk', -, -⟩
  · rw [hl]
    refine Triple.ofRun ?_
    change Shows P w (m.delete kind k) f
    rwa [Image.delete_of_none (by rw [hf.records_eq]; exact hs)]
  · simp only [hl, decodeRecord_record hk, Prog.ofExcept_ok_bind]
    rw [if_neg (by simp)]
    exact (nvsRemove_spec kind k v hf hk hl hslots).weaken (fun _ => id) (fun _ _ => id)
      (fun _ _ => Or.inr) (fun _ => id)
  · simp only [hl, decodeRecord_record hk', Prog.ofExcept_ok_bind]
    rw [if_pos hne]
    exact Triple.ofRun (Or.inl hf)

/-- A lookup on the flash finds exactly the stored record. -/
theorem loadRecord_spec (kind : Kind) (k : Bytes) (maxValueLen : ℕ)
    (hmax : ∀ v, kind.ValueOk P v → v.length ≤ maxValueLen) :
    Triple (Shows P w m) (loadRecord P (.records kind) k maxValueLen)
      (fun r f => Shows P w m f ∧ r = m.records kind k) (fun _ _ => False) (fun _ => False) := by
  refine Triple.bindRead fun f hf => ⟨(f.namespaces (.records kind)).lookup (P.recordName k),
    readBlob_eq ?_, ?_⟩
  · intro d hd
    obtain ⟨k', v, rfl, -, hk', -, hv⟩ := (hf.nsOk kind).recordOk _ _ hd
    have hlen := hmax v hv
    rw [record_length, recordHeaderLen]
    omega
  rw [hf.records_eq kind]
  rcases (hf.nsOk kind).slot_cases k with ⟨hl, hs⟩ | ⟨v, hl, hk, -, hv, hs⟩ |
    ⟨k', v, hl, hne, hk', -, hs⟩
  · rw [hl, hs]
    exact Triple.ofRun ⟨hf, rfl⟩
  · simp only [hl, hs, decodeRecord_record hk, Prog.ofExcept_ok_bind]
    have hlen := hmax v hv
    rw [if_neg (by simp), if_neg (by omega)]
    refine Triple.bind (rememberSessionSlot_spec hf hk hl) fun _ => Triple.pure _ ?_
    rintro f' ⟨hf', -⟩
    have hdrop : (record k v).drop ((record k v).length - v.length) = v := by
      rw [record, List.drop_left' (by simp; omega)]
    rw [hdrop, List.take_length]
    exact ⟨hf', rfl⟩
  · simp only [hl, hs, decodeRecord_record hk', Prog.ofExcept_ok_bind]
    rw [if_pos hne]
    exact Triple.ofRun ⟨hf, rfl⟩

/-! ### Erasing a namespace -/

theorem Wrote.trans {f f₁ f₂ : FlashNamespaces} {n : Ns} {content content' : Namespace}
    (h : Wrote f n content f₁) (h' : Wrote f₁ n content' f₂) : Wrote f n content' f₂ where
  namespaces := by rw [h'.namespaces, h.namespaces, Function.update_idem]
  slots := h'.slots.trans h.slots
  fates := fun _ hx => h.fates (h'.fates hx)

/-- The attempts that are left, from a state some failed attempts have reached. -/
theorem eraseAttempts_spec (n : Ns) (label : String) {f : FlashNamespaces} (hs : w.Allows f.fates)
    (attempts : ℕ) (lastError : Option String) (hzero : attempts = 0 → w.mayFail)
    (p : String → Bytes → Bool) (g : FlashNamespaces)
    (hg : Wrote f n ((f.namespaces n).retain p) g) :
    Triple (fun s => s = g) (eraseAttempts P n label attempts lastError) (fun _ => Wrote f n ∅)
      (fun _ f' => w.mayFail ∧ ∃ p, Wrote f n ((f.namespaces n).retain p) f')
      (fun f' => w.mayCut ∧ ∃ p, Wrote f n ((f.namespaces n).retain p) f') := by
  induction attempts generalizing lastError p g with
  | zero => exact Triple.ofRun ⟨hzero rfl, p, hg⟩
  | succ attempts ih =>
    have hgn : g.namespaces n = (f.namespaces n).retain p := by
      rw [hg.namespaces, Function.update_self]
    have hpart : ∀ (may : Prop) f', (may ∧ ∃ kept : String → Bool,
        Wrote g n ((g.namespaces n).retain fun name _ => kept name) f') →
        may ∧ ∃ p, Wrote f n ((f.namespaces n).retain p) f' := by
      rintro may f' ⟨hmay, kept, hw⟩
      rw [hgn, AList.retain_retain] at hw
      exact ⟨hmay, _, hg.trans hw⟩
    have herase : Triple (fun s => s = g) (nvsEraseAll n : FlashM Unit) (fun _ => Wrote f n ∅)
        (fun _ f' => w.mayFail ∧ ∃ p, Wrote f n ((f.namespaces n).retain p) f')
        (fun f' => w.mayCut ∧ ∃ p, Wrote f n ((f.namespaces n).retain p) f') := by
      refine (mutate_spec n _ (hs.wrote hg)).weaken (fun _ => id) ?_ (fun _ => hpart _) (hpart _)
      intro _ f' hw
      rw [AList.retain_false] at hw
      exact hg.trans hw
    refine Triple.bindAttempt herase (fun error => ?_) fun _ => ?_
    · refine Triple.ofState ?_
      rintro f' ⟨hmay, p', hw⟩
      exact ih _ (fun _ => hmay) p' f' hw
    · refine Triple.bindRead fun f' hw => ⟨_, recordNames_eq _ _, ?_⟩
      have hnil : P.iterOrder (f'.namespaces n).keys = [] := by
        rw [hw.namespaces, Function.update_self, ← List.perm_nil]
        exact P.iterOrder_perm _
      rw [if_pos hnil]
      exact Triple.ofRun hw

theorem eraseNamespace_spec (n : Ns) (label : String) {f : FlashNamespaces}
    (hs : w.Allows f.fates) :
    Triple (fun s => s = f) (eraseNamespace P n label) (fun _ => Wrote f n ∅)
      (fun _ f' => w.mayFail ∧ ∃ p, Wrote f n ((f.namespaces n).retain p) f')
      (fun f' => w.mayCut ∧ ∃ p, Wrote f n ((f.namespaces n).retain p) f') := by
  refine eraseAttempts_spec n label hs 3 none (by simp) (fun _ _ => true) f ?_
  rw [AList.retain_true]
  exact ⟨(Function.update_eq_self n f.namespaces).symm, rfl, fun _ => id⟩

/-! ### The device and the control records -/

theorem image_update_control (ns : Ns → Namespace) (content : Namespace) :
    image P (Function.update ns .control content) =
      { image P ns with
        latestSync := storedLatest content
        resetPending := (content.lookup "reset").isSome } := by
  ext1 <;> simp [image]

theorem image_update_device (ns : Ns → Namespace) (content : Namespace) :
    image P (Function.update ns .device content) =
      { image P ns with device := storedDevice P content } := by
  ext1 <;> simp [image]

theorem Shows.wrote_control {f f' : FlashNamespaces} (h : Shows P w m f) {content : Namespace}
    (hw : Wrote f .control content f') (hc : ControlOk content) :
    Shows P w { m with
      latestSync := storedLatest content
      resetPending := (content.lookup "reset").isSome } f' where
  ok := by
    refine ⟨⟨?_, ?_, ?_⟩, ?_⟩
    · simpa [hw.namespaces] using h.ok.durable.kinds
    · simpa [hw.namespaces] using h.ok.durable.device
    · simpa [hw.namespaces] using hc
    · simpa [hw.namespaces, hw.slots] using h.ok.slots
  image_eq := by rw [hw.namespaces, image_update_control, h.image_eq]
  script := h.script.wrote hw

theorem Shows.wrote_device {f f' : FlashNamespaces} (h : Shows P w m f) {content : Namespace}
    (hw : Wrote f .device content f') (hc : DeviceOk P content) :
    Shows P w { m with device := storedDevice P content } f' where
  ok := by
    refine ⟨⟨?_, ?_, ?_⟩, ?_⟩
    · simpa [hw.namespaces] using h.ok.durable.kinds
    · simpa [hw.namespaces] using hc
    · simpa [hw.namespaces] using h.ok.durable.control
    · simpa [hw.namespaces, hw.slots] using h.ok.slots
  image_eq := by rw [hw.namespaces, image_update_device, h.image_eq]
  script := h.script.wrote hw

theorem Shows.device_eq {f : FlashNamespaces} (h : Shows P w m f) :
    m.device = storedDevice P (f.namespaces .device) := by
  rw [← h.image_eq]
  rfl

theorem Shows.latestSync_eq {f : FlashNamespaces} (h : Shows P w m f) :
    m.latestSync = storedLatest (f.namespaces .control) := by
  rw [← h.image_eq]
  rfl

theorem Shows.resetPending_eq {f : FlashNamespaces} (h : Shows P w m f) :
    m.resetPending = ((f.namespaces .control).lookup "reset").isSome := by
  rw [← h.image_eq]
  rfl

theorem storedLatest_of_lookup {content : Namespace} {k id : Bytes}
    (hk : k.length ≤ maxLogicalKeyLen) (h : content.lookup "latestsync" = some (record k id)) :
    storedLatest content = some id := by
  simp only [storedLatest, h, decodeRecord_record hk]

theorem storedDevice_of_lookup {content : Namespace} {k payload : Bytes} {device : Device}
    (hk : k.length ≤ maxLogicalKeyLen) (h : content.lookup "current" = some (record k payload))
    (hd : P.device.fromSlice payload = .ok device) : storedDevice P content = some device := by
  simp only [storedDevice, h, decodeRecord_record hk, hd]
  rfl

theorem latestsync_length_le : (asBytes "latestsync").length ≤ maxLogicalKeyLen := by decide

theorem device_length_le : (asBytes "device").length ≤ maxLogicalKeyLen := by decide

/-- A blob written into the control or the device namespace: the new content, or the old one if
the primitive did not complete. -/
theorem setBlob_torn {n : Ns} {name : String} {value : Bytes} (m' : Image Device)
    {f : FlashNamespaces} (hname : '\x00' ∉ name.toList) (hf : Shows P w m f)
    (hnew : ∀ f', Wrote f n ((f.namespaces n).insert name value) f' → Shows P w m' f')
    (hold : ∀ f', Wrote f n (f.namespaces n) f' → Shows P w m f') :
    Triple (fun s => s = f) (setBlob n name value)
      (fun _ f' => Shows P w m' f' ∧ ∀ n', n' ≠ n → f'.namespaces n' = f.namespaces n')
      (fun _ => Torn P w w.mayFail m m') (Torn P w w.mayCut m m') := by
  have htorn : ∀ (may : Prop) f', (may ∧ ∃ kept : String → Bool, Wrote f n
      (if kept name then f.namespaces n else (f.namespaces n).insert name value) f') →
      Torn P w may m m' f' := by
    rintro may f' ⟨hmay, kept, hw⟩
    refine ⟨hmay, ?_⟩
    split_ifs at hw
    · exact Or.inl (hold f' hw)
    · exact Or.inr (hnew f' hw)
  rw [setBlob_eq hname]
  refine (mutate_spec _ _ hf.script).weaken (fun _ => id) ?_ (fun _ => htorn _) (htorn _)
  intro _ f' hw
  refine ⟨hnew f' (by simpa using hw), fun n' hn => ?_⟩
  rw [hw.namespaces, Function.update_of_ne hn]

/-- Rewriting a namespace with the content it has changes nothing. -/
theorem Shows.wrote_self {f f' : FlashNamespaces} (h : Shows P w m f) {n : Ns}
    (hw : Wrote f n (f.namespaces n) f') : Shows P w m f' where
  ok := by
    have hns : f'.namespaces = f.namespaces := by rw [hw.namespaces, Function.update_eq_self]
    refine ⟨?_, ?_⟩
    · rw [hns]
      exact h.ok.durable
    · rw [hns, hw.slots]
      exact h.ok.slots
  image_eq := by rw [hw.namespaces, Function.update_eq_self, h.image_eq]
  script := h.script.wrote hw

theorem saveLatestSyncKeyId_spec {id : Bytes} (hid : id.length ≤ maxLogicalKeyLen)
    {f : FlashNamespaces} (hf : Shows P w m f) :
    Triple (fun s => s = f) (saveLatestSyncKeyId id)
      (fun _ f' => Shows P w { m with latestSync := some id } f' ∧
        ∀ n', n' ≠ .control → f'.namespaces n' = f.namespaces n')
      (fun _ => Torn P w w.mayFail m { m with latestSync := some id })
      (Torn P w w.mayCut m { m with latestSync := some id }) := by
  rw [saveLatestSyncKeyId, if_neg (by omega), encodeRecord_of_le latestsync_length_le,
    Prog.ofExcept_ok_bind]
  refine setBlob_torn _ (by decide) hf (fun f' hw => ?_) (fun f' hw => hf.wrote_self hw)
  have hok := hf.ok.durable.control
  have hs := hf.wrote_control hw ⟨?_, ?_⟩
  · rwa [storedLatest_of_lookup latestsync_length_le (AList.lookup_insert _),
      AList.lookup_insert_ne (by decide), ← hf.resetPending_eq] at hs
  · intro r hr
    rw [AList.lookup_insert] at hr
    exact ⟨id, (Option.some.inj hr).symm, hid⟩
  · intro r hr
    rw [AList.lookup_insert_ne (by decide)] at hr
    exact hok.reset r hr

theorem loadLatestSyncKeyId_spec :
    Triple (Shows P w m) loadLatestSyncKeyId (fun r f => Shows P w m f ∧ r = m.latestSync)
      (fun _ _ => False) (fun _ => False) := by
  refine Triple.bindRead fun f hf => ⟨(f.namespaces .control).lookup "latestsync",
    readBlob_eq ?_, ?_⟩
  · intro d hd
    obtain ⟨id, rfl, hid⟩ := hf.ok.durable.control.latest d hd
    rw [record_length, recordHeaderLen]
    omega
  rw [hf.latestSync_eq]
  cases hl : (f.namespaces .control).lookup "latestsync" with
  | none => exact Triple.ofRun ⟨hf, by simp [storedLatest, hl]⟩
  | some r =>
    obtain ⟨id, rfl, hid⟩ := hf.ok.durable.control.latest r hl
    simp only [decodeRecord_record latestsync_length_le, Prog.ofExcept_ok_bind]
    rw [if_neg (by simp)]
    exact Triple.ofRun ⟨hf, (storedLatest_of_lookup latestsync_length_le hl).symm⟩

theorem loadDevice_spec :
    Triple (Shows P w m) (loadDevice P) (fun r f => Shows P w m f ∧ r = m.device)
      (fun _ _ => False) (fun _ => False) := by
  refine Triple.bindRead fun f hf => ⟨(f.namespaces .device).lookup "current", readBlob_eq ?_, ?_⟩
  · intro d hd
    obtain ⟨payload, device, rfl, hlen, -⟩ := hf.ok.durable.device d hd
    rw [record_length, recordHeaderLen]
    omega
  rw [hf.device_eq]
  cases hl : (f.namespaces .device).lookup "current" with
  | none => exact Triple.ofRun ⟨hf, by simp [storedDevice, hl]⟩
  | some r =>
    obtain ⟨payload, device, rfl, -, hd⟩ := hf.ok.durable.device r hl
    simp only [decodeRecord_record device_length_le, Prog.ofExcept_ok_bind]
    rw [if_neg (by simp), hd]
    exact Triple.ofRun ⟨hf, (storedDevice_of_lookup device_length_le hl hd).symm⟩

theorem saveDevice_spec (device : Device) :
    Triple (Shows P w m) (saveDevice P device)
      (fun _ => Shows P w { m with device := some device })
      (fun _ f => Shows P w m f ∨ Torn P w w.mayFail m { m with device := some device } f)
      (Torn P w w.mayCut m { m with device := some device }) := by
  unfold saveDevice
  cases hvec : P.device.toVec device with
  | error e => exact Triple.throw _ fun _ => Or.inl
  | ok payload =>
    simp only
    split_ifs with hlen
    · exact Triple.throw _ fun _ => Or.inl
    rw [encodeRecord_of_le device_length_le, Prog.ofExcept_ok_bind]
    have hd := P.device.fromSlice_toVec device payload hvec
    refine Triple.ofState fun f hf => ?_
    refine (setBlob_torn _ (by decide) hf (fun f' hw => ?_) (fun f' hw => hf.wrote_self hw)).weaken
      (fun _ => id) (fun _ _ h => h.1) (fun _ _ => Or.inr) (fun _ => id)
    have hs := hf.wrote_device hw ?_
    · rwa [storedDevice_of_lookup device_length_le (AList.lookup_insert _) hd] at hs
    · intro r hr
      rw [AList.lookup_insert] at hr
      exact ⟨payload, device, (Option.some.inj hr).symm, by omega, hd⟩

theorem resetPending_spec :
    Triple (Shows P w m) resetPending (fun r f => Shows P w m f ∧ r = m.resetPending)
      (fun _ _ => False) (fun _ => False) := by
  refine Triple.bindRead fun f hf => ⟨(f.namespaces .control).lookup "reset",
    readBlob_eq hf.ok.durable.control.reset, ?_⟩
  exact Triple.ofRun ⟨hf, hf.resetPending_eq.symm⟩

/-! ### Erasures -/

variable (P) in
/-- A primitive did not complete; the invariant still holds. -/
def Broken (w : Weather) (may : Prop) (f : FlashNamespaces) : Prop := may ∧ ∃ m', Shows P w m' f

theorem Torn.broken {m' : Image Device} {may : Prop} {f : FlashNamespaces}
    (h : Torn P w may m m' f) : Broken P w may f := ⟨h.1, h.2.elim (fun h => ⟨_, h⟩) (fun h => ⟨_, h⟩)⟩

/-- The content with no records of any kind and no marker. -/
def Image.clearSignal (m : Image Device) : Image Device :=
  { m with latestSync := none, records := fun _ _ => none }

theorem eraseKind_spec (kind : Kind) (label : String) :
    Triple (fun f => Shows P w m f ∧ f.validatedSessions = [])
      (eraseNamespace P (.records kind) label)
      (fun _ f => Shows P w (m.clear kind) f ∧ f.validatedSessions = [])
      (fun _ => Broken P w w.mayFail) (Broken P w w.mayCut) := by
  refine Triple.ofState fun f ⟨hf, hslots⟩ => ?_
  have hempty : ∀ content, SlotsOk P f.validatedSessions content := by
    intro content slot hslot
    rw [hslots] at hslot
    cases hslot
  have hbroken : ∀ (may : Prop) f', (may ∧ ∃ p, Wrote f (.records kind)
      ((f.namespaces (.records kind)).retain p) f') → Broken P w may f' := by
    rintro may f' ⟨hmay, p, hw⟩
    exact ⟨hmay, _,
      hf.wrote_records hw ((hf.nsOk kind).retain p) fun _ => hempty _⟩
  refine (eraseNamespace_spec _ _ hf.script).weaken (fun _ => id) ?_ (fun _ => hbroken _) (hbroken _)
  intro _ f' hw
  have hs := hf.wrote_records hw (.empty kind) fun _ => hempty _
  rw [stored_empty] at hs
  exact ⟨hs, hw.slots.trans hslots⟩

theorem eraseKinds_spec (kinds : List (Kind × String)) :
    Triple (fun f => Shows P w m f ∧ f.validatedSessions = []) (eraseKinds P kinds)
      (fun _ f => Shows P w (kinds.foldl (fun m e => m.clear e.1) m) f ∧ f.validatedSessions = [])
      (fun _ => Broken P w w.mayFail) (Broken P w w.mayCut) := by
  induction kinds generalizing m with
  | nil => exact Triple.pure _ fun f hf => hf
  | cons entry kinds ih =>
    obtain ⟨kind, label⟩ := entry
    exact Triple.bind (eraseKind_spec kind label) fun _ => ih

theorem clear_signalKinds :
    signalKinds.foldl (fun m e => m.clear e.1) { m with latestSync := none } = m.clearSignal := by
  ext1
  · rfl
  · rfl
  · rfl
  · funext kind k
    cases kind <;> rfl

/-- Removing a blob of the control namespace. -/
theorem removeBlob_control_spec {name : String} (m' : Image Device)
    (hcontrol : ∀ content, ControlOk content → ControlOk (content.erase name))
    (himage : ∀ f, Shows P w m f → m' = { m with
      latestSync := storedLatest ((f.namespaces .control).erase name)
      resetPending := (((f.namespaces .control).erase name).lookup "reset").isSome }) :
    Triple (fun f => Shows P w m f ∧ f.validatedSessions = []) (removeBlob .control name)
      (fun _ f => Shows P w m' f ∧ f.validatedSessions = []) (fun _ => Broken P w w.mayFail)
      (Broken P w w.mayCut) := by
  refine Triple.bindRead fun f ⟨hf, hslots⟩ => ⟨f, rfl, ?_⟩
  have hnew : ∀ f', Wrote f .control ((f.namespaces .control).erase name) f' →
      Shows P w m' f' := by
    intro f' hw
    rw [himage f hf]
    exact hf.wrote_control hw (hcontrol _ hf.ok.durable.control)
  have hbroken : ∀ (may : Prop) f', (may ∧ ∃ kept : String → Bool, Wrote f .control
      (if kept name then f.namespaces .control else (f.namespaces .control).erase name) f') →
      Broken P w may f' := by
    rintro may f' ⟨hmay, kept, hw⟩
    refine ⟨hmay, ?_⟩
    split_ifs at hw
    · exact ⟨_, hf.wrote_self hw⟩
    · exact ⟨_, hnew f' hw⟩
  cases hl : (f.namespaces .control).lookup name with
  | none =>
    have hself : (f.namespaces .control).erase name = f.namespaces .control := by
      apply AList.ext
      exact List.kerase_of_notMem_keys (AList.lookup_eq_none.mp hl)
    refine Triple.ofRun ⟨hnew f ?_, hslots⟩
    rw [hself]
    exact ⟨(Function.update_eq_self _ _).symm, rfl, fun _ => id⟩
  | some r =>
    refine (mutate_spec _ _ hf.script).weaken (fun _ => id) ?_ (fun _ => hbroken _) (hbroken _)
    intro _ f' hw
    exact ⟨hnew f' (by simpa using hw), hw.slots.trans hslots⟩

theorem ControlOk.erase {content : Namespace} (h : ControlOk content) (name : String) :
    ControlOk (content.erase name) where
  latest r hr := by
    rw [AList.lookup_erase_eq] at hr
    split_ifs at hr
    exact h.latest r hr
  reset r hr := by
    rw [AList.lookup_erase_eq] at hr
    split_ifs at hr
    exact h.reset r hr

theorem eraseSignal_spec :
    Triple (Shows P w m) (eraseSignal P)
      (fun _ f => Shows P w m.clearSignal f ∧ f.validatedSessions = [])
      (fun _ => Broken P w w.mayFail) (Broken P w w.mayCut) := by
  refine Triple.bind (M := fun _ f => Shows P w m f ∧ f.validatedSessions = [])
    (Triple.modify _ fun f hf => ⟨hf.clearSlots, rfl⟩) fun _ => ?_
  refine Triple.bind (removeBlob_control_spec { m with latestSync := none }
    (fun _ h => h.erase _) ?_) fun _ => ?_
  · intro f hf
    have hl : storedLatest ((f.namespaces .control).erase "latestsync") = none := by
      simp [storedLatest]
    rw [hl, AList.lookup_erase_ne (by decide), ← hf.resetPending_eq]
  · rw [← clear_signalKinds]
    exact eraseKinds_spec signalKinds

theorem eraseDevice_spec (label : String) :
    Triple (Shows P w m) (eraseNamespace P .device label)
      (fun _ => Shows P w { m with device := none }) (fun _ => Broken P w w.mayFail)
      (Broken P w w.mayCut) := by
  refine Triple.ofState fun f hf => ?_
  have hok : ∀ p, DeviceOk P ((f.namespaces .device).retain p) := by
    intro p r hr
    rw [AList.lookup_retain] at hr
    exact hf.ok.durable.device r (Option.filter_eq_some_iff.mp hr).1
  have hbroken : ∀ (may : Prop) f', (may ∧ ∃ p, Wrote f .device
      ((f.namespaces .device).retain p) f') → Broken P w may f' := by
    rintro may f' ⟨hmay, p, hw⟩
    exact ⟨hmay, _, hf.wrote_device hw (hok p)⟩
  refine (eraseNamespace_spec _ _ hf.script).weaken (fun _ => id) ?_ (fun _ => hbroken _) (hbroken _)
  intro _ f' hw
  refine hf.wrote_device hw ?_
  rw [← AList.retain_false (f.namespaces .device)]
  exact hok _

/-- A completed reset leaves a blank partition. -/
theorem completeReset_spec :
    Triple (Shows P w m) (completeReset P) (fun _ f => Shows P w Image.blank f)
      (fun _ => Broken P w w.mayFail) (Broken P w w.mayCut) := by
  have hall : Triple (Shows P w m) (FlashNamespaces.eraseAll P)
      (fun _ f => Shows P w { Image.blank with resetPending := m.resetPending } f ∧
        f.validatedSessions = [])
      (fun _ => Broken P w w.mayFail) (Broken P w w.mayCut) :=
    Triple.bind (eraseDevice_spec "device") fun _ => eraseSignal_spec
  refine Triple.bind hall fun _ => (removeBlob_control_spec Image.blank
    (fun _ h => h.erase _) ?_).weaken (fun _ => id) (fun _ _ h => h.1) (fun _ _ => id)
    (fun _ => id)
  intro f hf
  have hl : storedLatest ((f.namespaces .control).erase "reset") = none := by
    rw [storedLatest, AList.lookup_erase_ne (by decide)]
    exact hf.latestSync_eq.symm
  rw [hl, AList.lookup_erase]
  rfl

theorem resetAll_spec :
    Triple (Shows P w m) (resetAll P) (fun _ f => Shows P w Image.blank f)
      (fun _ => Broken P w w.mayFail) (Broken P w w.mayCut) := by
  refine Triple.bind (M := fun _ => Shows P w { m with resetPending := true }) ?_ fun _ =>
    completeReset_spec
  refine Triple.ofState fun f hf => ?_
  refine (setBlob_torn { m with resetPending := true } (by decide) hf (fun f' hw => ?_)
    (fun f' hw => hf.wrote_self hw)).weaken (fun _ => id) (fun _ _ h => h.1)
    (fun _ _ => Torn.broken) (fun _ => Torn.broken)
  have hok := hf.ok.durable.control
  have hs := hf.wrote_control hw ⟨?_, ?_⟩
  · have hl : storedLatest ((f.namespaces .control).insert "reset" (asBytes "1")) =
        m.latestSync := by
      rw [storedLatest, AList.lookup_insert_ne (by decide)]
      exact hf.latestSync_eq.symm
    rwa [hl, AList.lookup_insert] at hs
  · intro r hr
    rw [AList.lookup_insert_ne (by decide)] at hr
    exact hok.latest r hr
  · intro r hr
    rw [AList.lookup_insert] at hr
    rw [← Option.some.inj hr]
    decide

end WhatsappEsp32
