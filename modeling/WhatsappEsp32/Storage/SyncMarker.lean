import WhatsappEsp32.Storage.Wear

/-!
# The marker of the latest sync key

`set_sync_key` writes two records: the marker of the latest key, then the key.  When it stops in
between, the marker names a key that may not be there, and `open` then goes by the timestamps in
the stored keys.

* `NextLatest`: what the next `open` takes for the latest key;
* `writeSyncKey_effect`: the three contents at which the job can stop;
* `setSyncKey_latest`: what the process and the next `open` take for the latest key, wherever
  `set_sync_key` stops;
* `orphanMarker_forgets`: after a marker without its key, neither the old latest key nor the new
  one is found.
-/

namespace WhatsappEsp32

open CrashLogic FlashNamespaces NvsStore

variable {Device SyncKey α : Type} {P : Platform Device SyncKey}

/-! ### The next `open` -/

variable (P) in
/-- The next `open` succeeds, and takes `latest` for the latest key. -/
def NextLatest (ns : Ns → Namespace) (latest : Option Bytes) : Prop :=
  ∀ fates, ∃ mirrors flash, openPartition P ns fates = (.ok mirrors, flash) ∧
    mirrors.latestSyncKeyId = latest

/-- A device is linked, and no reset is pending. -/
structure Linked (ns : Ns → Namespace) : Prop where
  unmarked : ¬Marked ns
  device : (ns .device).lookup "current" ≠ none

theorem Linked.device_eq {ns : Ns → Namespace} (h : Linked ns) (hns : DurableOk P ns) :
    ∃ device, (image P ns).device = some device := by
  obtain ⟨r, hr⟩ := Option.ne_none_iff_exists'.mp h.device
  obtain ⟨payload, device, rfl, -, hdec⟩ := hns.device r hr
  exact ⟨device, storedDevice_of_lookup device_length_le hr hdec⟩

/-- Opening the partition of a linked device only reads it. -/
theorem openPartition_of_linked {ns : Ns → Namespace} (h : Linked ns) (hns : DurableOk P ns)
    (fates : List Fate) : ∃ mirrors, LatestFrom P mirrors.latestSyncKeyId (image P ns) ∧
      openPartition P ns fates = (.ok mirrors, ⟨ns, [], fates⟩) ∧
      openPartition P ns [] = (.ok mirrors, ⟨ns, [], []⟩) := by
  obtain ⟨device, hdevice⟩ := h.device_eq hns
  have hload : ∀ fates, loadDevice P ⟨ns, [], fates⟩ = (.ok (some device), ⟨ns, [], fates⟩) := by
    intro fates
    have hspec := loadDevice_spec _ (hns.shows (rough_allows fates))
    obtain ⟨answer, hanswer⟩ := loadDevice_readOnly (P := P)
    rw [hanswer] at hspec ⊢
    simp only at hspec ⊢
    generalize answer (ns .device) = o at hspec ⊢
    cases o with
    | ok r => rw [show r = some device from hspec.2.trans hdevice]
    | error e => exact hspec.elim
    | halted => exact hspec.elim
  have hopen : ∀ fates, openPartition P ns fates = replay P device ⟨ns, [], fates⟩ := by
    intro fates
    rw [openPartition, openFlash_unmarked h.unmarked, Prog.bind_of_ok (hload fates)]
  have hspec := replay_spec hdevice _ (hns.shows (rough_allows []))
  obtain ⟨answer, hanswer⟩ := replay_readOnly (P := P) device
  rw [hopen, hopen, hanswer, hanswer]
  rw [hanswer] at hspec
  simp only at hspec ⊢
  generalize answer ns = o at hspec
  cases o with
  | ok mirrors => exact ⟨mirrors, hspec.2.2, rfl, rfl⟩
  | error e => exact hspec.elim
  | halted => exact hspec.elim

theorem nextLatest_of_linked {ns : Ns → Namespace} (h : Linked ns) (hns : DurableOk P ns) :
    ∃ latest, NextLatest P ns latest ∧ LatestFrom P latest (image P ns) := by
  obtain ⟨mirrors, hlatest, -, hopen⟩ := openPartition_of_linked h hns []
  refine ⟨mirrors.latestSyncKeyId, fun fates => ?_, hlatest⟩
  obtain ⟨mirrors', -, hfates, hopen'⟩ := openPartition_of_linked h hns fates
  rw [hopen] at hopen'
  cases hopen'
  exact ⟨mirrors, _, hfates, rfl⟩

theorem NextLatest.unique {ns : Ns → Namespace} {latest latest' : Option Bytes}
    (h : NextLatest P ns latest) (h' : NextLatest P ns latest') : latest = latest' := by
  obtain ⟨mirrors, flash, hopen, rfl⟩ := h []
  obtain ⟨mirrors', flash', hopen', rfl⟩ := h' []
  rw [hopen] at hopen'
  cases hopen'
  rfl

/-- A boot finds a latest key only for a linked device. -/
theorem NextLatest.linked {ns : Ns → Namespace} {id : Bytes} (h : NextLatest P ns (some id)) :
    Linked ns := by
  obtain ⟨mirrors, flash, hopen, hlatest⟩ := h []
  have hempty : ¬mirrors = {} := by
    rintro rfl
    cases hlatest
  have hunmarked : ¬Marked ns := by
    intro hmarked
    have hdoomed := openFlash_doomed (P := P) ⟨ns, [], []⟩ (.inl hmarked)
    rw [show openFlash P ⟨ns, [], []⟩ = _ from hopen] at hdoomed
    exact hempty hdoomed.1
  refine ⟨hunmarked, fun hdevice => hempty ?_⟩
  have hload : loadDevice P ⟨ns, [], []⟩ = (.ok none, ⟨ns, [], []⟩) :=
    loadDevice_of_lookup_none hdevice
  rw [openPartition, openFlash_unmarked hunmarked, Prog.bind_of_ok hload] at hopen
  simp only [Prog.bind_run] at hopen
  generalize discardOrphans P ⟨ns, [], []⟩ = r at hopen
  obtain ⟨u | e | _, f⟩ := r
  · cases hopen
    rfl
  · cases hopen
  · cases hopen

/-! ### The two writes -/

/-- The marker names `keyId`. -/
def markerWritten (ns : Ns → Namespace) (keyId : Bytes) : Ns → Namespace :=
  Function.update ns .control
    ((ns .control).insert "latestsync" (record (asBytes "latestsync") keyId))

variable (P) in
/-- The marker names `keyId` and the key is there. -/
def keyWritten (ns : Ns → Namespace) (keyId payload : Bytes) : Ns → Namespace :=
  Function.update (markerWritten ns keyId) (.records .syncKeys)
    ((ns (.records .syncKeys)).insert (P.recordName keyId) (record keyId payload))

/-- A blob that is written is there, or nothing has changed and the write did not succeed. -/
theorem setBlob_effect {w : Weather} (n : Ns) {name : String} (value : Bytes)
    (hname : '\x00' ∉ name.toList) {f : FlashNamespaces} (hf : w.Allows f.fates) :
    Triple (fun s => s = f) (setBlob n name value)
      (fun _ f' => w.Allows f'.fates ∧
        f'.namespaces = Function.update f.namespaces n ((f.namespaces n).insert name value))
      (fun _ f' => w.mayFail ∧ (f'.namespaces = f.namespaces ∨
        f'.namespaces = Function.update f.namespaces n ((f.namespaces n).insert name value)))
      (fun f' => f'.namespaces = f.namespaces ∨
        f'.namespaces = Function.update f.namespaces n ((f.namespaces n).insert name value)) := by
  have hkept : ∀ (f' : FlashNamespaces) (kept : String → Bool), Wrote f n
      (if kept name then f.namespaces n else (f.namespaces n).insert name value) f' →
      f'.namespaces = f.namespaces ∨
      f'.namespaces = Function.update f.namespaces n ((f.namespaces n).insert name value) := by
    intro f' kept hw
    split_ifs at hw
    · exact .inl (hw.namespaces.trans (Function.update_eq_self _ _))
    · exact .inr hw.namespaces
  rw [setBlob_eq hname]
  refine (mutate_spec n _ hf).weaken (fun _ => id) ?_ ?_ ?_
  · exact fun _ f' hw => ⟨hf.wrote hw, hw.namespaces⟩
  · exact fun _ f' ⟨hmay, kept, hw⟩ => ⟨hmay, hkept f' kept hw⟩
  · exact fun f' ⟨_, kept, hw⟩ => hkept f' kept hw

/-- The check before a write changes no record. -/
theorem prepareRecord_namespaces (n : Ns) (k v : Bytes) (label : String) (maxEntries : ℕ)
    (ns : Ns → Namespace) :
    Keeps (fun f => f.namespaces = ns) (prepareRecord P n k v label maxEntries) := by
  have hremember : ∀ name, Keeps (fun f : FlashNamespaces => f.namespaces = ns)
      (rememberSessionSlot n name k) := by
    intro name
    unfold rememberSessionSlot
    exact Keeps.ite (fun _ => .pure ()) fun _ => Triple.modify _ fun _ hf => hf
  have hflash : Keeps (fun f : FlashNamespaces => f.namespaces = ns)
      (checkFlashSlot P n k label maxEntries) := by
    refine (readBlob_readOnly n _ _).keeps.bind fun blob => ?_
    cases blob with
    | none =>
      refine Keeps.bind (.of_state fun _ => rfl) fun count => ?_
      exact (Keeps.ofExcept _).bind fun _ => .pure _
    | some existing =>
      refine (Keeps.ofExcept _).bind fun entry => ?_
      exact Keeps.ite (fun _ => .throw _) fun _ => (hremember _).bind fun _ => .pure _
  refine Keeps.bind ?_ fun name => (Keeps.ofExcept _).bind fun _ => .pure _
  refine Keeps.ite (fun _ => .throw _) fun _ => Keeps.ite (fun _ => .throw _) fun _ => ?_
  refine Keeps.bind (.of_state fun _ => rfl) fun f => ?_
  cases hcached : cachedSlot P n k f with
  | none => simpa only [hcached] using hflash
  | some b =>
    cases b with
    | false => simpa only [hcached] using Keeps.throw _
    | true => simpa only [hcached] using Keeps.pure _

theorem markerWritten_syncKeys (ns : Ns → Namespace) (keyId : Bytes) :
    markerWritten ns keyId (.records .syncKeys) = ns (.records .syncKeys) :=
  Function.update_of_ne (by decide) _ _

/-- The job stops before its writes, after the marker or after the key. -/
theorem writeSyncKey_effect {w : Weather} (keyId payload : Bytes) {f : FlashNamespaces}
    (hok : FlashOk P f) (hf : w.Allows f.fates) :
    Triple (fun s => s = f) (writeSyncKey P keyId payload)
      (fun _ f' => keyId.length ≤ maxLogicalKeyLen ∧
        f'.namespaces = keyWritten P f.namespaces keyId payload)
      (fun _ f' => f'.namespaces = f.namespaces ∨ keyId.length ≤ maxLogicalKeyLen ∧ w.mayFail ∧
        (f'.namespaces = f.namespaces ∨ f'.namespaces = markerWritten f.namespaces keyId ∨
          f'.namespaces = keyWritten P f.namespaces keyId payload))
      (fun f' => keyId.length ≤ maxLogicalKeyLen ∧
        (f'.namespaces = f.namespaces ∨ f'.namespaces = markerWritten f.namespaces keyId ∨
          f'.namespaces = keyWritten P f.namespaces keyId payload)) := by
  have hshows : Shows P w (image P f.namespaces) f := ⟨hok, rfl, hf⟩
  have hprepare := (prepareRecord_spec (w := w) (m := image P f.namespaces) .syncKeys keyId payload
    "sync key").both
    (prepareRecord_namespaces (P := P) (.records .syncKeys) keyId payload "sync key" maxSyncKeys
      f.namespaces)
  refine Triple.bind (hprepare.weaken ?_ (fun _ _ => id) (fun _ _ h => .inl h.2)
    fun _ h => h.1.elim) ?_
  · rintro _ rfl
    exact ⟨hshows, rfl⟩
  rintro ⟨name, r⟩
  refine Triple.ofState ?_
  rintro f₁ ⟨⟨hf₁, hadmits, hr, -⟩, hns₁⟩
  simp only at hadmits hr
  subst hr
  have hlen := hadmits.length_le
  -- the marker is committed before the key, so it can point to a key that is not there yet
  have hmarker : Triple (fun s => s = f₁) (saveLatestSyncKeyId keyId)
      (fun _ f' => w.Allows f'.fates ∧ f'.namespaces = markerWritten f.namespaces keyId)
      (fun _ f' => w.mayFail ∧
        (f'.namespaces = f.namespaces ∨ f'.namespaces = markerWritten f.namespaces keyId))
      (fun f' => f'.namespaces = f.namespaces ∨
        f'.namespaces = markerWritten f.namespaces keyId) := by
    rw [saveLatestSyncKeyId, if_neg (by omega), encodeRecord_of_le latestsync_length_le,
      Prog.ofExcept_ok_bind]
    have heffect := setBlob_effect .control (record (asBytes "latestsync") keyId)
      (by decide : '\x00' ∉ "latestsync".toList) hf₁.script
    rw [hns₁] at heffect
    exact heffect
  refine Triple.bind (hmarker.weaken (fun _ => id) (fun _ _ => id) ?_ ?_) fun _ => ?_
  · rintro _ f' ⟨hfail, h | h⟩
    · exact .inr ⟨hlen, hfail, .inl h⟩
    · exact .inr ⟨hlen, hfail, .inr (.inl h)⟩
  · rintro f' (h | h)
    · exact ⟨hlen, .inl h⟩
    · exact ⟨hlen, .inr (.inl h)⟩
  refine Triple.ofState ?_
  rintro f₂ ⟨hf₂, hns₂⟩
  have hname : '\x00' ∉ name.toList := by
    rw [hadmits.name_eq]
    exact P.recordName_noNul keyId
  have hkey := setBlob_effect (.records .syncKeys) (record keyId payload) hname hf₂
  rw [hns₂, markerWritten_syncKeys, hadmits.name_eq] at hkey
  rw [hadmits.name_eq]
  refine hkey.weaken (fun _ => id) ?_ ?_ ?_
  · exact fun _ f' h => ⟨hlen, h.2⟩
  · exact fun _ f' h => .inr ⟨hlen, h.1, .inr h.2⟩
  · exact fun f' h => ⟨hlen, .inr h⟩

/-- Where `set_sync_key` can stop: the mirrors follow only a success. -/
inductive Stopped (P : Platform Device SyncKey) (keyId : Bytes) (key : SyncKey)
    (s : NvsStore Device SyncKey) : Outcome StoreError Unit → NvsStore Device SyncKey → Prop
  | done {s' : NvsStore Device SyncKey} (payload : Bytes)
      (hpayload : P.syncKey.toVec key = .ok payload) (hkey : keyId.length ≤ maxLogicalKeyLen)
      (hns : s'.flash.namespaces = keyWritten P s.flash.namespaces keyId payload)
      (hinner : s'.inner.latestSyncKeyId = some keyId) : Stopped P keyId key s (.ok ()) s'
  | before {o : Outcome StoreError Unit} {s' : NvsStore Device SyncKey} (ho : o ≠ .ok ())
      (hns : s'.flash.namespaces = s.flash.namespaces) (hinner : s'.inner = s.inner) :
      Stopped P keyId key s o s'
  | midway {o : Outcome StoreError Unit} {s' : NvsStore Device SyncKey} (ho : o ≠ .ok ())
      (payload : Bytes) (hkey : keyId.length ≤ maxLogicalKeyLen)
      (hns : s'.flash.namespaces = markerWritten s.flash.namespaces keyId ∨
        s'.flash.namespaces = keyWritten P s.flash.namespaces keyId payload)
      (hinner : s'.inner = s.inner) : Stopped P keyId key s o s'

theorem writeOperation_cases (s : NvsStore Device SyncKey) :
    writeOperation s = (.ok (), s) ∨ ∃ e, writeOperation s = (.error e, s) := by
  cases hs : s.acceptingWrites with
  | true => exact .inl (writeOperation_of_accepting hs)
  | false => exact .inr ⟨_, writeOperation_of_sealed hs⟩

/-- A gate lets through or refuses. -/
theorem triple_gate {gate : StoreM Device SyncKey Unit} {s : NvsStore Device SyncKey}
    {E : StoreError → NvsStore Device SyncKey → Prop} {C : NvsStore Device SyncKey → Prop}
    (hgate : gate s = (.ok (), s) ∨ ∃ e, gate s = (.error e, s)) (hE : ∀ e, E e s) :
    Triple (fun t => t = s) gate (fun _ t => t = s) E C := by
  rcases hgate with h | ⟨e, h⟩
  · exact Triple.ofRunEq h rfl
  · exact Triple.ofRunEq h (hE e)

theorem setSyncKey_stopped {w : Weather} (keyId : Bytes) (key : SyncKey)
    {s : NvsStore Device SyncKey} (hs : FlashOk P s.flash) (hw : w.Allows s.flash.fates) :
    Triple (fun t => t = s) (setSyncKey P keyId key)
      (fun _ s' => Stopped P keyId key s (.ok ()) s')
      (fun e s' => Stopped P keyId key s (.error e) s' ∧
        (¬w.mayFail → s'.flash.namespaces = s.flash.namespaces))
      (fun s' => Stopped P keyId key s .halted s') := by
  -- a call that is refused has touched nothing
  have hrefused : ∀ e : StoreError, Stopped P keyId key s (.error e) s ∧
      (¬w.mayFail → s.flash.namespaces = s.flash.namespaces) :=
    fun e => ⟨.before nofun rfl rfl, fun _ => rfl⟩
  refine Triple.bind (triple_gate (writeOperation_cases s) hrefused) fun _ => ?_
  refine Triple.bind (triple_gate (mirrorGate_cases _ _ _ _ s) hrefused) fun _ => ?_
  cases hpayload : P.syncKey.toVec key with
  | error e =>
    refine Triple.throw _ ?_
    rintro _ rfl
    exact hrefused _
  | ok payload =>
    have hjob : Triple (fun t => t = s) (run (writeSyncKey P keyId payload))
        (fun _ s' => s'.inner = s.inner ∧ keyId.length ≤ maxLogicalKeyLen ∧
          s'.flash.namespaces = keyWritten P s.flash.namespaces keyId payload)
        (fun e s' => Stopped P keyId key s (.error e) s' ∧
          (¬w.mayFail → s'.flash.namespaces = s.flash.namespaces))
        (fun s' => Stopped P keyId key s .halted s') := by
      refine Triple.zoom fun t ht => ?_
      subst ht
      refine (writeSyncKey_effect keyId payload hs hw).weaken (fun _ => id) ?_ ?_ ?_
      · exact fun _ f' h => ⟨rfl, h.1, h.2⟩
      · rintro e f' (h | ⟨hkey, hfail, h | h⟩)
        · exact ⟨.before nofun h rfl, fun _ => h⟩
        · exact ⟨.before nofun h rfl, fun _ => h⟩
        · exact ⟨.midway nofun payload hkey h rfl, fun hno => absurd hfail hno⟩
      · rintro f' ⟨hkey, h | h⟩
        · exact .before nofun h rfl
        · exact .midway nofun payload hkey h rfl
    refine Triple.bind hjob fun _ => Triple.modify _ ?_
    rintro s' ⟨-, hkey, hns⟩
    exact .done payload hpayload hkey hns rfl

/-! ### The latest key, before and after a reboot -/

theorem markerWritten_latest (ns : Ns → Namespace) (keyId : Bytes) :
    storedLatest (markerWritten ns keyId .control) = some keyId := by
  refine storedLatest_of_lookup latestsync_length_le ?_
  rw [markerWritten, Function.update_self, AList.lookup_insert]

theorem Linked.markerWritten {ns : Ns → Namespace} (h : Linked ns) (keyId : Bytes) :
    Linked (markerWritten ns keyId) where
  unmarked := by
    unfold Marked WhatsappEsp32.markerWritten
    rw [Function.update_self, AList.lookup_insert_ne (by decide)]
    exact h.unmarked
  device := by
    unfold WhatsappEsp32.markerWritten
    rw [Function.update_of_ne (by decide)]
    exact h.device

theorem Linked.keyWritten {ns : Ns → Namespace} (h : Linked ns) (keyId payload : Bytes) :
    Linked (keyWritten P ns keyId payload) where
  unmarked := by
    unfold Marked WhatsappEsp32.keyWritten
    rw [Function.update_of_ne (by decide)]
    exact (h.markerWritten keyId).unmarked
  device := by
    unfold WhatsappEsp32.keyWritten
    rw [Function.update_of_ne (by decide)]
    exact (h.markerWritten keyId).device

theorem keyWritten_latest (ns : Ns → Namespace) (keyId payload : Bytes) :
    storedLatest (keyWritten P ns keyId payload .control) = some keyId := by
  rw [keyWritten, Function.update_of_ne (by decide), markerWritten_latest]

theorem keyWritten_stored (ns : Ns → Namespace) {keyId : Bytes} (payload : Bytes)
    (hkey : keyId.length ≤ maxLogicalKeyLen) :
    stored P (keyWritten P ns keyId payload (.records .syncKeys)) keyId = some payload := by
  unfold stored
  rw [keyWritten, Function.update_self, AList.lookup_insert]
  simp only [decodeRecord_record hkey]
  exact if_pos trivial

/-- What a boot makes of a marker for `keyId`: it is trusted if there is a record of the key, and
otherwise the newest stored key is taken. -/
theorem nextLatest_of_marker {ns : Ns → Namespace} {keyId : Bytes} (h : Linked ns)
    (hns : DurableOk P ns) (hmarker : storedLatest (ns .control) = some keyId)
    (hkeys : ∃ k, stored P (ns (.records .syncKeys)) k ≠ none) :
    ∃ next, NextLatest P ns (some next) ∧
      (next = keyId ∧ stored P (ns (.records .syncKeys)) keyId ≠ none ∨
        stored P (ns (.records .syncKeys)) keyId = none ∧ IsNewest P (image P ns) next) := by
  obtain ⟨latest, hnext, hlatest⟩ := nextLatest_of_linked h hns
  by_cases hkey : stored P (ns (.records .syncKeys)) keyId = none
  · cases latest with
    | none =>
      obtain ⟨k, hk⟩ := hkeys
      exact absurd (hlatest.none_iff.mp rfl k) hk
    | some next =>
      refine ⟨next, hnext, .inr ⟨hkey, hlatest.fallback ?_ next rfl⟩⟩
      intro id hid
      obtain rfl : keyId = id := Option.some.inj (hmarker.symm.trans hid)
      exact hkey
  · have hsome := hlatest.recorded keyId hmarker (Option.isSome_iff_ne_none.mpr hkey)
    rw [hsome] at hnext
    exact ⟨keyId, hnext, .inl ⟨rfl, hkey⟩⟩

/-- The process takes the new key for the latest one exactly after a success, and then the next
boot does too.  Otherwise the process stays with the old one; so does the next boot if the marker
was not written, but a marker that was written is not taken back: the next boot trusts it if there
is any record of the key, and else goes by the timestamps. -/
theorem setSyncKey_latest {s : NvsStore Device SyncKey} (hs : WornReachable P (.on s)) {L : Bytes}
    (hprocess : s.inner.latestSyncKeyId = some L)
    (hboot : NextLatest P s.flash.namespaces (some L)) (keyId : Bytes) (key : SyncKey)
    (fates : List Fate) :
    let r := setSyncKey P keyId key (Machine.withFates s fates)
    let ns := r.2.flash.namespaces
    ∃ next, NextLatest P ns (some next) ∧
      (r.1 = .ok () → r.2.inner.latestSyncKeyId = some keyId ∧ next = keyId ∧
        ∃ payload, P.syncKey.toVec key = .ok payload ∧
          stored P (ns (.records .syncKeys)) keyId = some payload) ∧
      (r.1 ≠ .ok () → r.2.inner.latestSyncKeyId = some L) ∧
      (Weather.cuts.Allows fates → ∀ e, r.1 = .error e → ns = s.flash.namespaces) ∧
      (ns = s.flash.namespaces ∧ next = L ∨
        storedLatest (ns .control) = some keyId ∧
          (next = keyId ∧ stored P (ns (.records .syncKeys)) keyId ≠ none ∨
            stored P (ns (.records .syncKeys)) keyId = none ∧ IsNewest P (image P ns) next)) := by
  intro r ns
  have hok : FlashOk P (Machine.withFates s fates).flash := ⟨hs.flashOk.durable, hs.flashOk.slots⟩
  have hokns : DurableOk P ns := ((setSyncKey_flashOk keyId key).snd hok).durable
  have hlinked : Linked s.flash.namespaces := hboot.linked
  -- The key that is the latest before the call is stored.
  have hL : stored P (s.flash.namespaces (.records .syncKeys)) L ≠ none := by
    obtain ⟨latest, hnext, hlatest⟩ := nextLatest_of_linked hlinked hs.flashOk.durable
    exact Option.isSome_iff_ne_none.mp (hlatest.present L (hnext.unique hboot))
  have hstopped : Stopped P keyId key (Machine.withFates s fates) r.1 r.2 := by
    have hrun := setSyncKey_stopped keyId key hok (rough_allows _) _ rfl
    change r.1.Meets (fun _ => Stopped P keyId key (Machine.withFates s fates) (.ok ()) r.2)
      (fun e => Stopped P keyId key (Machine.withFates s fates) (.error e) r.2 ∧ _)
      (Stopped P keyId key (Machine.withFates s fates) .halted r.2) at hrun
    generalize r.1 = o at hrun
    cases o with
    | ok _ => exact hrun
    | error e => exact hrun.1
    | halted => exact hrun
  have hquiet : Weather.cuts.Allows fates → ∀ e, r.1 = .error e → ns = s.flash.namespaces := by
    intro hfates e he
    have hrun := setSyncKey_stopped keyId key hok hfates _ rfl
    rw [show (setSyncKey P keyId key (Machine.withFates s fates)).1 = _ from he] at hrun
    exact hrun.2 id
  change Stopped P keyId key (Machine.withFates s fates) r.1 r.2 at hstopped
  generalize hr : r.1 = o at hstopped hquiet ⊢
  cases hstopped with
  | done payload hpayload hkey hns hinner =>
    have hstored : stored P (ns (.records .syncKeys)) keyId = some payload := by
      rw [show ns = _ from hns]
      exact keyWritten_stored _ payload hkey
    have hmarker : storedLatest (ns .control) = some keyId := by
      rw [show ns = _ from hns]
      exact keyWritten_latest _ _ _
    have hlinked' : Linked ns := by
      rw [show ns = _ from hns]
      exact hlinked.keyWritten keyId payload
    obtain ⟨next, hnext, hcases⟩ :=
      nextLatest_of_marker hlinked' hokns hmarker ⟨keyId, by simp [hstored]⟩
    have heq : next = keyId := by
      rcases hcases with ⟨heq, -⟩ | ⟨hnone, -⟩
      · exact heq
      · rw [hstored] at hnone
        cases hnone
    exact ⟨next, hnext, fun _ => ⟨hinner, heq, payload, hpayload, hstored⟩,
      fun hne => absurd rfl hne, hquiet, .inr ⟨hmarker, hcases⟩⟩
  | before ho hns hinner =>
    have heq : ns = s.flash.namespaces := hns
    refine ⟨L, heq ▸ hboot, fun hdone => absurd hdone ho, fun _ => ?_, hquiet, .inl ⟨heq, rfl⟩⟩
    rw [hinner]
    exact hprocess
  | midway ho payload hkey hns hinner =>
    have hinner' : r.2.inner.latestSyncKeyId = some L := by
      rw [hinner]
      exact hprocess
    have hfacts : Linked ns ∧ storedLatest (ns .control) = some keyId ∧
        ∃ k, stored P (ns (.records .syncKeys)) k ≠ none := by
      rcases hns with hns | hns
      · rw [show ns = _ from hns]
        refine ⟨hlinked.markerWritten keyId, markerWritten_latest _ _, L, ?_⟩
        rw [markerWritten_syncKeys]
        exact hL
      · rw [show ns = _ from hns]
        refine ⟨hlinked.keyWritten keyId payload, keyWritten_latest _ _ _, keyId, ?_⟩
        rw [keyWritten_stored _ payload hkey]
        exact nofun
    obtain ⟨next, hnext, hcases⟩ := nextLatest_of_marker hfacts.1 hokns hfacts.2.1 hfacts.2.2
    exact ⟨next, hnext, fun hdone => absurd hdone ho, fun _ => hinner', hquiet,
      .inr ⟨hfacts.2.1, hcases⟩⟩

/-- A linked board whose latest key is not its newest by timestamp. -/
def staleStore : NvsStore Bytes Bytes :=
  afterCalls syncBoard [⟨_, .save [1]⟩, ⟨_, .setSyncKey [1] [1, 1]⟩, ⟨_, .setSyncKey [2] [2]⟩]
    (NvsStore.fresh syncBoard)

theorem wornReachable_staleStore : WornReachable syncBoard (.on staleStore) := by
  have hboot : WornReachable syncBoard (.on (NvsStore.fresh syncBoard)) :=
    Relation.ReflTransGen.refl.tail (.boot emptyPartition [])
  have hsave := hboot.call (.save [1]) rfl rfl (a := ()) (by decide +kernel)
  have hfirst := hsave.call (.setSyncKey [1] [1, 1]) rfl (by decide +kernel) (a := ())
    (by decide +kernel)
  exact hfirst.call (.setSyncKey [2] [2]) rfl (by decide +kernel) (a := ()) (by decide +kernel)

variable (P) in
/-- The latest key after a boot in which nothing fails. -/
def bootedLatest (ns : Ns → Namespace) : Option Bytes :=
  match (openPartition P ns []).1 with
  | .ok mirrors => mirrors.latestSyncKeyId
  | _ => none

theorem NextLatest.bootedLatest_eq {ns : Ns → Namespace} {latest : Option Bytes}
    (h : NextLatest P ns latest) : bootedLatest P ns = latest := by
  obtain ⟨mirrors, flash, hrun, rfl⟩ := h []
  rw [bootedLatest, hrun]

/-- What one boot finds is what the next one finds. -/
theorem nextLatest_of_open {ns : Ns → Namespace} {id : Bytes} (h : Linked ns) (hns : DurableOk P ns)
    (hopen : bootedLatest P ns = some id) : NextLatest P ns (some id) := by
  obtain ⟨latest, hnext, -⟩ := nextLatest_of_linked h hns
  rwa [← hopen, hnext.bootedLatest_eq]

theorem nextLatest_staleStore : NextLatest syncBoard staleStore.flash.namespaces (some [2]) :=
  nextLatest_of_open ⟨by decide +kernel, by decide +kernel⟩ wornReachable_staleStore.flashOk.durable
    (by decide +kernel)

/-- A call that succeeds on this board. -/
theorem staleStore_moves :
    WornReachable syncBoard (.on staleStore) ∧ staleStore.inner.latestSyncKeyId = some [2] ∧
    NextLatest syncBoard (setSyncKey syncBoard [3] [3] staleStore).2.flash.namespaces
      (some [3]) := by
  have hlatest : staleStore.inner.latestSyncKeyId = some [2] := by decide +kernel
  refine ⟨wornReachable_staleStore, hlatest, ?_⟩
  obtain ⟨next, hnext, hok, -⟩ := setSyncKey_latest wornReachable_staleStore hlatest
    nextLatest_staleStore [3] [3] []
  have hdone : (setSyncKey syncBoard [3] [3] (Machine.withFates staleStore [])).1 = .ok () := by
    decide +kernel
  obtain ⟨-, rfl, -⟩ := hok hdone
  exact hnext

/-- The marker is written, the key is not, and the call returns an error: the process still has the
old latest key, and the next boot takes another key. -/
theorem orphanMarker_forgets :
    ¬∀ (P : Platform Bytes Bytes) (s : NvsStore Bytes Bytes) (L : Bytes),
      WornReachable P (.on s) → s.inner.latestSyncKeyId = some L →
      NextLatest P s.flash.namespaces (some L) → ∀ keyId key fates,
      let r := setSyncKey P keyId key (Machine.withFates s fates)
      (r.2.inner.latestSyncKeyId = some L ∧ NextLatest P r.2.flash.namespaces (some L)) ∨
        (r.2.inner.latestSyncKeyId = some keyId ∧
          NextLatest P r.2.flash.namespaces (some keyId)) := by
  intro h
  have hcases := h syncBoard staleStore [2] wornReachable_staleStore (by decide +kernel)
    nextLatest_staleStore [3] [3] [.done, .fails "ESP_ERR_NVS_NOT_ENOUGH_SPACE" fun _ => true]
  have hboot : bootedLatest syncBoard (setSyncKey syncBoard [3] [3] (Machine.withFates staleStore
      [.done, .fails "ESP_ERR_NVS_NOT_ENOUGH_SPACE" fun _ => true])).2.flash.namespaces =
      some [1] := by
    decide +kernel
  rcases hcases with ⟨-, hnext⟩ | ⟨-, hnext⟩
  · exact absurd (hnext.bootedLatest_eq.symm.trans hboot) (by decide)
  · exact absurd (hnext.bootedLatest_eq.symm.trans hboot) (by decide)

end WhatsappEsp32
