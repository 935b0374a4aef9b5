import WhatsappEsp32.Storage.Sealing

/-!
# Readers that race with writers

A lookup that misses the mirror reads the flash and then mirrors what it has read, without the
`operation` mutex.  A write of the same record that completes in between is undone in the mirror.
In every run without such a write the mirrors of identities, sessions and sync keys hold only what
the flash holds.

* `Entry`, `Sound`: the entries of the three mirrors, and that the flash holds them;
* `raceCalls`, `Unwatched`: any calls on any number of threads; no step changes a record that a
  reader is about to mirror;
* `racing`: the protocol, with `keepsSound_task` for the calls;
* `unwatched_sound`: the mirrors are sound whenever no call is in progress, and
  `lateMirror_unsound`: a run with one late reader after which they are not.
-/

namespace WhatsappEsp32

open CrashLogic FlashNamespaces NvsStore Threads

variable {Device SyncKey α β : Type} {P : Platform Device SyncKey} {m m' : Image Device}

/-! ### Entries -/

/-- An entry of one of the three bounded mirrors. -/
inductive Entry (SyncKey : Type)
  | identity (address : String) (key : IdentityKey)
  | session (address : String) (record : Bytes)
  | syncKey (keyId : Bytes) (key : SyncKey)

namespace Entry

/-- The kind and the key of its record. -/
def slot : Entry SyncKey → Kind × Bytes
  | .identity address _ => (.identities, asBytes address)
  | .session address _ => (.sessions, asBytes address)
  | .syncKey keyId _ => (.syncKeys, keyId)

/-- The mirror holds the entry. -/
def MirroredIn (s : StoreInner Device SyncKey) : Entry SyncKey → Prop
  | .identity address key => s.identities.map.lookup address = some key
  | .session address record => s.sessions.map.lookup address = some record
  | .syncKey keyId key => s.syncKeys.map.lookup keyId = some key

variable (P) in
/-- The flash holds the entry. -/
def StoredIn (m : Image Device) : Entry SyncKey → Prop
  | .identity address key => m.identity address = some key
  | .session address record => m.session address = some record
  | .syncKey keyId key => m.syncKey P keyId = some key

/-- An entry depends on its own record only. -/
theorem StoredIn.of_record {e : Entry SyncKey} (h : e.StoredIn P m)
    (hslot : m'.records e.slot.1 e.slot.2 = m.records e.slot.1 e.slot.2) : e.StoredIn P m' := by
  cases e with
  | identity address key =>
    show (m'.records .identities (asBytes address)).bind toIdentityKey = some key
    rw [show m'.records .identities (asBytes address) = _ from hslot]
    exact h
  | session address record => exact hslot.trans h
  | syncKey keyId key =>
    show (m'.records .syncKeys keyId).bind (fun v => (P.syncKey.fromSlice v).toOption) = some key
    rw [show m'.records .syncKeys keyId = _ from hslot]
    exact h

end Entry

open Entry

variable (P) in
/-- What the flash of a running store holds. -/
def NvsStore.content (s : NvsStore Device SyncKey) : Image Device := image P s.flash.namespaces

variable (P) in
/-- Everything mirrored is what the flash holds. -/
def Sound (s : NvsStore Device SyncKey) : Prop :=
  ∀ e : Entry SyncKey, e.MirroredIn s.inner → e.StoredIn P (s.content P)

/-! ### The mirror updates -/

theorem mirroredIn_mirrorIdentity {a : String} {key : IdentityKey} {s : StoreInner Device SyncKey}
    {e : Entry SyncKey} (h : e.MirroredIn (s.mirrorIdentity P a key)) :
    e = .identity a key ∨ e.MirroredIn s ∧ e.slot ≠ (.identities, asBytes a) := by
  cases e with
  | identity address key' =>
    have hl : ((s.identities.insert a key).map).lookup address = some key' :=
      Mirror.lookup_of_enforceCap h
    rw [Mirror.insert, AList.lookup_insert_eq] at hl
    split_ifs at hl with ha
    · left
      rw [ha, Option.some.inj hl]
    · exact Or.inr ⟨hl, by simpa [slot] using ha⟩
  | session address record => exact Or.inr ⟨h, by simp [slot]⟩
  | syncKey keyId key' => exact Or.inr ⟨h, by simp [slot]⟩

theorem mirroredIn_mirrorSession {a : String} {v : Bytes} {s : StoreInner Device SyncKey}
    {e : Entry SyncKey} (h : e.MirroredIn (s.mirrorSession P a v)) :
    e = .session a v ∨ e.MirroredIn s ∧ e.slot ≠ (.sessions, asBytes a) := by
  cases e with
  | identity address key => exact Or.inr ⟨h, by simp [slot]⟩
  | session address record =>
    have hl : ((s.sessions.insert a v).map).lookup address = some record :=
      Mirror.lookup_of_enforceCap h
    rw [Mirror.insert, AList.lookup_insert_eq] at hl
    split_ifs at hl with ha
    · left
      rw [ha, Option.some.inj hl]
    · exact Or.inr ⟨hl, by simpa [slot] using ha⟩
  | syncKey keyId key => exact Or.inr ⟨h, by simp [slot]⟩

theorem mirroredIn_mirrorSyncKey {k : Bytes} {key : SyncKey} {s : StoreInner Device SyncKey}
    {e : Entry SyncKey} (h : e.MirroredIn (s.mirrorSyncKey P k key)) :
    e = .syncKey k key ∨ e.MirroredIn s ∧ e.slot ≠ (.syncKeys, k) := by
  cases e with
  | identity address key => exact Or.inr ⟨h, by simp [slot]⟩
  | session address record => exact Or.inr ⟨h, by simp [slot]⟩
  | syncKey keyId key' =>
    have hl : ((s.syncKeys.insert k key).map).lookup keyId = some key' :=
      Mirror.lookup_of_enforceCapExcept h
    rw [Mirror.insert, AList.lookup_insert_eq] at hl
    split_ifs at hl with hk
    · left
      rw [hk, Option.some.inj hl]
    · exact Or.inr ⟨hl, by simpa [slot] using hk⟩

/-! ### The protocol -/

variable (P) in
/-- The flash keeps its invariant, and no primitive fails. -/
structure Good (s : NvsStore Device SyncKey) : Prop where
  ok : FlashOk P s.flash
  calm : Weather.calm.Allows s.flash.fates

theorem Good.shows {s : NvsStore Device SyncKey} (h : Good P s) :
    Shows P .calm (s.content P) s.flash := ⟨h.ok, rfl, h.calm⟩

theorem Good.of_shows {s : NvsStore Device SyncKey} (h : Shows P .calm m s.flash) : Good P s :=
  ⟨h.ok, h.script⟩

variable (P) in
/-- What is done without the `operation` mutex: the partition stays, and what is mirrored besides
the old entries is stored. -/
structure Grown (s s' : NvsStore Device SyncKey) : Prop where
  namespaces : s'.flash.namespaces = s.flash.namespaces
  entries : ∀ e : Entry SyncKey, e.MirroredIn s'.inner →
    e.MirroredIn s.inner ∨ e.StoredIn P (s'.content P)

namespace Grown

variable {s s' s'' : NvsStore Device SyncKey}

theorem content_eq (h : Grown P s s') : s'.content P = s.content P := by
  rw [content, h.namespaces, content]

protected theorem refl (s : NvsStore Device SyncKey) : Grown P s s := ⟨rfl, fun _ => Or.inl⟩

protected theorem trans (h : Grown P s s') (h' : Grown P s' s'') : Grown P s s'' := by
  refine ⟨h'.namespaces.trans h.namespaces, fun e he => ?_⟩
  rcases h'.entries e he with he | he
  · rw [h'.content_eq]
    exact h.entries e he
  · exact Or.inr he

protected theorem sound (h : Grown P s s') (hs : Sound P s) : Sound P s' := by
  intro e he
  rcases h.entries e he with he | he
  · rw [h.content_eq]
    exact hs e he
  · exact he

end Grown

variable (P) in
/-- The holder of the `operation` mutex leaves sound mirrors behind; the others only grow the
mirrors by what is stored. -/
def racing (ι : Type) :
    Protocol ι Lock (Kind × Bytes) (NvsStore Device SyncKey) (Except StoreError Unit) where
  free l s := l = .operation → Good P s ∧ Sound P s
  env _ H w s s' := (Good P s → Good P s') ∧ (.operation ∈ H → Grown P s s') ∧
    ∀ kind key, w = some (kind, key) →
      (s'.content P).records kind key = (s.content P).records kind key
  guar _ H s s' := (Good P s → Good P s') ∧ (.operation ∉ H → Grown P s s')
  post _ _ s := Good P s

variable {ι : Type} {i : ι} {H : Set Lock} {w : Option (Kind × Bytes)}

variable (P) in
/-- The step changes no record that a reader is about to mirror. -/
def Unwatched
    (c c' : Config ι Lock (Kind × Bytes) (NvsStore Device SyncKey) (Except StoreError Unit)) :
    Prop :=
  ∀ i kind key, c.watch i = some (kind, key) →
    (c'.state.content P).records kind key = (c.state.content P).records kind key

theorem racing_lawful : (racing P ι).Lawful (Unwatched P) where
  refl _ _ _ s := ⟨id, fun _ => .refl s, fun _ _ _ => rfl⟩
  trans h h' := ⟨h'.1 ∘ h.1, fun hop => (h.2.1 hop).trans (h'.2.1 hop),
    fun kind key hw => (h'.2.2 kind key hw).trans (h.2.2 kind key hw)⟩
  free hguar hl hfree := by
    rintro rfl
    exact ⟨hguar.1 (hfree rfl).1, (hguar.2 hl).sound (hfree rfl).2⟩
  compat hij hok hguar :=
    ⟨hguar.1, fun hop => hguar.2 (Config.notMem_held hij hop), fun kind key => hok _ kind key⟩

/-! ### Parts of calls -/

variable (P) in
/-- The flash is good, and under the `operation` mutex the mirrors are sound. -/
def Quiet (H : Set Lock) (s : NvsStore Device SyncKey) : Prop :=
  Good P s ∧ (.operation ∈ H → Sound P s)

theorem stable_quiet : Stable (racing P ι) i H w (Quiet P H) :=
  fun _ _ hs henv => ⟨henv.1 hs.1, fun hop => (henv.2.1 hop).sound (hs.2 hop)⟩

variable (P) in
/-- A part of a call keeps to the protocol. -/
def KeepsSound (i : ι) (H : Set Lock) (w : Option (Kind × Bytes)) (p : StoreT Device SyncKey α) :
    Prop := Ensures (racing P ι) i H w (Quiet P H) p (fun _ => Quiet P H) (Quiet P H)

/-- An access to the mirrors that adds nothing. -/
def Forgets (p : StoreM Device SyncKey α) : Prop :=
  ∀ s, (p s).2.flash = s.flash ∧
    ∀ e : Entry SyncKey, e.MirroredIn (p s).2.inner → e.MirroredIn s.inner

theorem Forgets.grown {p : StoreM Device SyncKey α} (h : Forgets p) (s : NvsStore Device SyncKey) :
    Grown P s (p s).2 :=
  ⟨by rw [(h s).1], fun e he => Or.inl ((h s).2 e he)⟩

theorem Good.of_flash {s s' : NvsStore Device SyncKey} (h : Good P s) (hf : s'.flash = s.flash) :
    Good P s' := by
  refine ⟨?_, ?_⟩ <;> rw [hf]
  · exact h.ok
  · exact h.calm

namespace KeepsSound

theorem pure (a : α) : KeepsSound P i H none (Pure.pure a : StoreT Device SyncKey α) :=
  Ensures.pure a fun _ => id

theorem throw (e : StoreError) :
    KeepsSound P i H none (MonadExcept.throw e : StoreT Device SyncKey α) :=
  Ensures.throw e fun _ => id

theorem bind {p : StoreT Device SyncKey α} {k : α → StoreT Device SyncKey β}
    (h : KeepsSound P i H w p) (hk : ∀ a, KeepsSound P i H none (k a)) :
    KeepsSound P i H w (p >>= k) := Ensures.bind h hk

theorem mirrors {p : StoreM Device SyncKey α} (hp : Forgets p) :
    KeepsSound P i H w (Threaded.mirrors p) := by
  refine Ensures.act stable_quiet fun s hs => ?_
  have hgrown : Grown P s (p s).2 := hp.grown s
  have hgood : Good P (p s).2 := hs.1.of_flash (hp s).1
  exact ⟨⟨fun _ => hgood, fun _ => hgrown⟩,
    Outcome.Meets.const _ ⟨hgood, fun hop => hgrown.sound (hs.2 hop)⟩⟩

/-- A job that only reads. -/
theorem readJob {ν : Type} {view : FlashNamespaces → ν} {j : FlashM α} (hj : ReadOnly view j) :
    KeepsSound P i H w (Threaded.job j : StoreT Device SyncKey α) := by
  refine Ensures.act stable_quiet fun s hs => ?_
  have hrun : (run j s).2 = s := by
    obtain ⟨g, hg⟩ := hj
    show ({ s with flash := (j s.flash).2 } : NvsStore Device SyncKey) = s
    rw [hg]
  rw [hrun]
  exact ⟨⟨id, fun _ => .refl s⟩, Outcome.Meets.const _ hs⟩

theorem withInner {p : StoreT Device SyncKey α} (hinner : .inner ∉ H)
    (h : KeepsSound P i (insert .inner H) w p) :
    KeepsSound P i H w (Thread.withLock .inner p) := by
  have hmem : Lock.operation ∈ insert .inner H ↔ .operation ∈ H := by simp
  have hback : ∀ s s' : NvsStore Device SyncKey, Quiet P (insert .inner H) s →
      (racing P ι).env i (insert .inner H) none s s' →
      (racing P ι).free .inner s' ∧ Quiet P H s' := by
    intro s s' hs henv
    have hs' := stable_quiet s s' hs henv
    exact ⟨nofun, hs'.1, fun hop => hs'.2 (hmem.mpr hop)⟩
  refine Ensures.withLock hinner (fun s s' hs henv _ => ?_) h (fun _ => hback) hback
  have hs' := stable_quiet s s' hs henv
  exact ⟨hs'.1, fun hop => hs'.2 (hmem.mp hop)⟩

theorem withOperation {p : StoreT Device SyncKey α} (hop : .operation ∉ H)
    (h : KeepsSound P i (insert .operation H) w p) :
    KeepsSound P i H w (Thread.withLock .operation p) := by
  have hback : ∀ s s' : NvsStore Device SyncKey, Quiet P (insert .operation H) s →
      (racing P ι).env i (insert .operation H) none s s' →
      (racing P ι).free .operation s' ∧ Quiet P H s' := by
    intro s s' hs henv
    have hs' := stable_quiet s s' hs henv
    exact ⟨fun _ => ⟨hs'.1, hs'.2 (Set.mem_insert _ _)⟩, hs'.1, fun h => absurd h hop⟩
  refine Ensures.withLock hop (fun s s' _ _ hfree => ?_) h (fun _ => hback) hback
  exact ⟨(hfree rfl).1, fun _ => (hfree rfl).2⟩

theorem writing {p : StoreT Device SyncKey α} (hop : .operation ∉ H)
    (h : KeepsSound P i (insert .operation H) none p) :
    KeepsSound P i H w (Threaded.writing p) := by
  refine withOperation hop ((mirrors fun s => ?_).bind fun _ => h)
  rw [writeOperation_state]
  exact ⟨rfl, fun _ => id⟩

end KeepsSound

theorem forgets_withInner (f : StoreInner Device SyncKey → α) : Forgets (withInner f) :=
  fun _ => ⟨rfl, fun _ => id⟩

theorem forgets_gate (has : StoreInner Device SyncKey → Bool)
    (len : StoreInner Device SyncKey → ℕ) (max : ℕ) (label : String) :
    Forgets (mirrorGate has len max label) := by
  intro s
  rw [mirrorGate_state]
  exact ⟨rfl, fun _ => id⟩

theorem forgets_lookup {get : StoreInner Device SyncKey → Option β}
    {touch : StoreInner Device SyncKey → StoreInner Device SyncKey}
    (h : ∀ s (e : Entry SyncKey), e.MirroredIn (touch s) → e.MirroredIn s) :
    Forgets (Threaded.lookup get touch) := by
  intro s
  unfold Threaded.lookup
  rw [Prog.bind_of_ok (show withInner get s = (.ok (get s.inner), s) from rfl)]
  cases get s.inner with
  | some value => exact ⟨rfl, h s.inner⟩
  | none => exact ⟨rfl, fun _ => id⟩

/-! ### Writes -/

variable (P) in
/-- A job that changes only the records of `slots` and leaves a content with `Q`, or fails and
changes nothing. -/
def Changes (Pre : FlashNamespaces → Prop) (slots : Set (Kind × Bytes)) (Q : Image Device → Prop)
    (j : FlashM α) : Prop :=
  ∀ m, Triple (fun f => Shows P .calm m f ∧ Pre f) j
    (fun _ f => ∃ m', Shows P .calm m' f ∧
      (∀ slot ∉ slots, m'.records slot.1 slot.2 = m.records slot.1 slot.2) ∧ Q m')
    (fun _ => Shows P .calm m) (fun _ => False)

variable (P) in
/-- A mirror update that drops the entries of `slots` or replaces them by what is stored. -/
def Repairs (slots : Set (Kind × Bytes)) (Q : Image Device → Prop)
    (change : StoreInner Device SyncKey → StoreInner Device SyncKey) : Prop :=
  ∀ s m, Q m → ∀ e : Entry SyncKey, e.MirroredIn (change s) →
    (e.MirroredIn s ∧ e.slot ∉ slots) ∨ e.StoredIn P m

variable (P) in
/-- Between the job and the mirror update of a write. -/
structure Stale (slots : Set (Kind × Bytes)) (Q : Image Device → Prop)
    (s : NvsStore Device SyncKey) : Prop where
  good : Good P s
  holds : Q (s.content P)
  entries : ∀ e : Entry SyncKey, e.MirroredIn s.inner → e.slot ∉ slots →
    e.StoredIn P (s.content P)

section Writes

variable {slots : Set (Kind × Bytes)} {Q : Image Device → Prop}
  {change : StoreInner Device SyncKey → StoreInner Device SyncKey}

theorem stable_stale (hop : .operation ∈ H) : Stable (racing P ι) i H w (Stale P slots Q) := by
  intro s s' hs henv
  have hgrown := henv.2.1 hop
  refine ⟨henv.1 hs.good, ?_, fun e he hslot => ?_⟩
  · rw [hgrown.content_eq]
    exact hs.holds
  · rcases hgrown.entries e he with he | he
    · rw [hgrown.content_eq]
      exact hs.entries e he hslot
    · exact he

/-- A job under the mutex that leaves the content as it is. -/
theorem ensures_check {R : α → FlashNamespaces → Prop} {j : FlashM α} (hop : .operation ∈ H)
    (hj : ∀ m, Triple (Shows P .calm m) j (fun a f => Shows P .calm m f ∧ R a f)
      (fun _ => Shows P .calm m) (fun _ => False)) :
    Ensures (racing P ι) i H w (Quiet P H) (Threaded.job j : StoreT Device SyncKey α)
      (fun a s => Quiet P H s ∧ R a s.flash) (Quiet P H) := by
  refine Ensures.act stable_quiet fun s hs => ?_
  have hrun := triple_runFlash (hj (s.content P)) s hs.1.shows
  have hinner : (run j s).2.inner = s.inner := rfl
  generalize run j s = r at hrun hinner
  have hquiet : Shows P .calm (s.content P) r.2.flash → Quiet P H r.2 := by
    refine fun hshows => ⟨.of_shows hshows, fun _ e he => ?_⟩
    rw [hinner] at he
    rw [show r.2.content P = s.content P from hshows.image_eq]
    exact hs.2 hop e he
  obtain ⟨a | e | _, s'⟩ := r
  · exact ⟨⟨fun _ => (hquiet hrun.1).1, fun hnop => absurd hop hnop⟩, hquiet hrun.1, hrun.2⟩
  · exact ⟨⟨fun _ => (hquiet hrun).1, fun hnop => absurd hop hnop⟩, hquiet hrun⟩
  · exact hrun.elim

/-- The flash job of a write, under the mutex. -/
theorem ensures_job {Pre : FlashNamespaces → Prop} {j : FlashM α} (hop : .operation ∈ H)
    (hPre : ∀ f f' : FlashNamespaces, f'.namespaces = f.namespaces → Pre f → Pre f')
    (hj : Changes P Pre slots Q j) :
    Ensures (racing P ι) i H w (fun s => Quiet P H s ∧ Pre s.flash)
      (Threaded.job j : StoreT Device SyncKey α) (fun _ => Stale P slots Q) (Quiet P H) := by
  refine Ensures.act (fun s s' hs henv => ?_) fun s hs => ?_
  · exact ⟨stable_quiet s s' hs.1 henv, hPre _ _ (henv.2.1 hop).namespaces hs.2⟩
  · have hrun := triple_runFlash (hj (s.content P)) s ⟨hs.1.1.shows, hs.2⟩
    have hinner : (run j s).2.inner = s.inner := rfl
    generalize run j s = r at hrun hinner
    obtain ⟨a | e | _, s'⟩ := r
    · obtain ⟨m', hshows, hsame, hQ⟩ := hrun
      have hcontent : s'.content P = m' := hshows.image_eq
      refine ⟨⟨fun _ => .of_shows hshows, fun hnop => absurd hop hnop⟩, .of_shows hshows, ?_, ?_⟩
      · rw [hcontent]
        exact hQ
      · intro e he hslot
        rw [show s'.inner = s.inner from hinner] at he
        rw [hcontent]
        exact (hs.1.2 hop e he).of_record (hsame e.slot hslot)
    · have hcontent : s'.content P = s.content P := Shows.image_eq hrun
      refine ⟨⟨fun _ => .of_shows hrun, fun hnop => absurd hop hnop⟩, .of_shows hrun, fun _ => ?_⟩
      intro e he
      rw [show s'.inner = s.inner from hinner] at he
      rw [hcontent]
      exact hs.1.2 hop e he
    · exact hrun.elim

/-- The mirror update of a write. -/
theorem ensures_repair (hop : .operation ∈ H) (h : Repairs P slots Q change) :
    Ensures (racing P ι) i H w (Stale P slots Q) (Threaded.mirrors (update change))
      (fun _ => Quiet P H) (Quiet P H) := by
  refine Ensures.act (stable_stale hop) fun s hs => ?_
  refine ⟨⟨fun hgood => hgood.of_flash rfl, fun hnop => absurd hop hnop⟩, hs.good.of_flash rfl,
    fun _ e he => ?_⟩
  rcases h s.inner (s.content P) hs.holds e he with ⟨he, hslot⟩ | he
  · exact hs.entries e he hslot
  · exact he

/-- The mirror update of a batch entry. -/
theorem ensures_repairLocked (hop : .operation ∈ H) (hinner : .inner ∉ H)
    (h : Repairs P slots Q change) :
    Ensures (racing P ι) i H w (Stale P slots Q)
      (Thread.withLock .inner (Threaded.mirrors (update change))) (fun _ => Quiet P H)
      (Quiet P H) := by
  have hback : ∀ s s' : NvsStore Device SyncKey, Quiet P (insert .inner H) s →
      (racing P ι).env i (insert .inner H) none s s' →
      (racing P ι).free .inner s' ∧ Quiet P H s' := by
    intro s s' hs henv
    have hs' := stable_quiet s s' hs henv
    exact ⟨nofun, hs'.1, fun hop => hs'.2 (Set.mem_insert_of_mem _ hop)⟩
  refine Ensures.withLock hinner (fun s s' hs henv _ => stable_stale hop s s' hs henv)
    (ensures_repair (Set.mem_insert_of_mem _ hop) h) (fun _ => hback) hback

/-- The job and the mirror update together. -/
theorem keepsSound_write {j : FlashM α} (hop : .operation ∈ H)
    (hj : Changes P (fun _ => True) slots Q j) (h : Repairs P slots Q change) :
    KeepsSound P i H w (do
      let _ ← (Threaded.job j : StoreT Device SyncKey α)
      Threaded.mirrors (update change)) := by
  refine Ensures.bind ((ensures_job hop (fun _ _ _ => id) hj).weaken ?_ (fun _ _ => id)
    fun _ => id) fun _ => ensures_repair hop h
  exact fun s hs => ⟨hs, trivial⟩

theorem keepsSound_gatedWrite {has : StoreInner Device SyncKey → Bool}
    {len : StoreInner Device SyncKey → ℕ} {max : ℕ} {label : String} {j : FlashM α}
    (hj : Changes P (fun _ => True) slots Q j) (h : Repairs P slots Q change) :
    KeepsSound P i ∅ none (Threaded.gatedWrite (mirrorGate has len max label) j change) := by
  refine .writing (by simp) (.withInner (by simp) ?_)
  exact (KeepsSound.mirrors (forgets_gate _ _ _ _)).bind fun _ => keepsSound_write (by simp) hj h

theorem keepsSound_plainWrite {j : FlashM α} (hj : Changes P (fun _ => True) slots Q j)
    (h : Repairs P slots Q change) : KeepsSound P i ∅ none (Threaded.plainWrite j change) :=
  .writing (by simp) (.withInner (by simp) (keepsSound_write (by simp) hj h))

/-- Between the two looks at the mirrors a batch holds the mutex alone. -/
theorem keepsSound_batch {κ : Type} {has : κ → StoreInner Device SyncKey → Bool}
    {len : StoreInner Device SyncKey → ℕ} {max : ℕ} {label : String} {j : κ → FlashM α}
    {change : κ → StoreInner Device SyncKey → StoreInner Device SyncKey}
    (slots : κ → Set (Kind × Bytes)) (Q : κ → Image Device → Prop)
    (hj : ∀ e, Changes P (fun _ => True) (slots e) (Q e) (j e))
    (h : ∀ e, Repairs P (slots e) (Q e) (change e)) (entries : List κ) :
    KeepsSound P i (insert .operation ∅) none
      (Threaded.entriesInTurn (fun e => Threaded.batchEntry (mirrorGate (has e) len max label)
        (j e) (change e)) entries) := by
  induction entries with
  | nil => exact .pure _
  | cons e entries ih =>
    refine KeepsSound.bind ?_ fun _ => ih
    refine (KeepsSound.withInner (by simp) (.mirrors (forgets_gate _ _ _ _))).bind fun _ => ?_
    refine Ensures.bind ((ensures_job (by simp) (fun _ _ _ => id) (hj e)).weaken ?_ (fun _ _ => id)
      fun _ => id) fun _ => ensures_repairLocked (by simp) (by simp) (h e)
    exact fun s hs => ⟨hs, trivial⟩

end Writes

/-! ### What the jobs change -/

theorem put_records_of_ne {kind : Kind} {k v : Bytes} {slot : Kind × Bytes}
    (h : slot ∉ ({(kind, k)} : Set (Kind × Bytes))) :
    (m.put kind k v).records slot.1 slot.2 = m.records slot.1 slot.2 := by
  obtain ⟨kind', k'⟩ := slot
  by_cases hkind : kind' = kind
  · subst hkind
    have hk : k' ≠ k := by simpa using h
    simp [Image.put, hk]
  · simp [Image.put, hkind]

theorem delete_records_of_ne {kind : Kind} {k : Bytes} {slot : Kind × Bytes}
    (h : slot ∉ ({(kind, k)} : Set (Kind × Bytes))) :
    (m.delete kind k).records slot.1 slot.2 = m.records slot.1 slot.2 := by
  obtain ⟨kind', k'⟩ := slot
  by_cases hkind : kind' = kind
  · subst hkind
    have hk : k' ≠ k := by simpa using h
    simp [Image.delete, hk]
  · simp [Image.delete, hkind]

/-- In calm weather a refused write has changed nothing. -/
theorem shows_of_refused {f : FlashNamespaces}
    (h : Shows P .calm m f ∨ Torn P .calm Weather.calm.mayFail m m' f) : Shows P .calm m f :=
  h.resolve_right fun h => h.1

theorem changes_putRecord (kind : Kind) (k v : Bytes) (label : String) (hkey : kind.KeyOk k)
    (hv : v.length ≤ maxSignalRecordLen → kind.ValueOk P v) :
    Changes P (fun _ => True) {(kind, k)} (fun m => m.records kind k = some v)
      (putRecord P (.records kind) k v label kind.maxEntries) := by
  intro m
  refine (putRecord_spec kind k v label hkey hv).weaken (fun _ h => h.1) ?_ ?_ ?_
  · exact fun _ f hf => ⟨_, hf, fun _ => put_records_of_ne, by simp⟩
  · exact fun _ f => shows_of_refused
  · exact fun f hf => hf.1

theorem changes_deleteRecord (kind : Kind) (k : Bytes) (label : String) :
    Changes P (fun _ => True) {(kind, k)} (fun _ => True)
      (deleteRecord P (.records kind) k label) := by
  intro m
  refine (deleteRecord_spec kind k label).weaken (fun _ h => h.1) ?_ ?_ ?_
  · exact fun _ f hf => ⟨_, hf, fun _ => delete_records_of_ne, trivial⟩
  · exact fun _ f => shows_of_refused
  · exact fun f hf => hf.1

theorem changes_setBlob (a : String) (v : Bytes) (name : String)
    (hv : Kind.ValueOk P .sessions v) :
    Changes P (Admits P .sessions (asBytes a) name) {(.sessions, asBytes a)}
      (fun m => m.records .sessions (asBytes a) = some v)
      (setBlob (.records .sessions) name (record (asBytes a) v)) := by
  intro m
  refine (setBlob_spec .sessions (asBytes a) v name ⟨a, rfl⟩ hv).weaken (fun _ => id) ?_ ?_ ?_
  · exact fun _ f hf => ⟨_, hf, fun _ => put_records_of_ne, by simp⟩
  · exact fun _ f hf => hf.1.elim
  · exact fun f hf => hf.1

theorem changes_writeSyncKey (keyId payload : Bytes) {key : SyncKey}
    (hdec : P.syncKey.fromSlice payload = .ok key) :
    Changes P (fun _ => True) {(.syncKeys, keyId)}
      (fun m => m.records .syncKeys keyId = some payload) (writeSyncKey P keyId payload) := by
  intro m
  refine (writeSyncKey_spec keyId payload hdec).weaken (fun _ h => h.1) ?_ ?_ ?_
  · refine fun _ f hf => ⟨_, hf, fun slot hslot => ?_, ?_⟩
    · exact put_records_of_ne hslot
    · show (m.put .syncKeys keyId payload).records .syncKeys keyId = some payload
      simp
  · exact fun _ f hf => hf.resolve_right fun h => h.1
  · exact fun f hf => hf.1

theorem changes_saveDevice (device : Device) :
    Changes P (fun _ => True) ∅ (fun _ => True) (saveDevice P device) := by
  intro m
  refine (saveDevice_spec device).weaken (fun _ h => h.1) ?_ ?_ ?_
  · exact fun _ f hf => ⟨_, hf, fun _ _ => rfl, trivial⟩
  · exact fun _ f => shows_of_refused
  · exact fun f hf => hf.1

theorem changes_resetAll :
    Changes P (fun _ => True) Set.univ (fun _ => True) (resetAll P) := by
  intro m
  refine resetAll_spec.weaken (fun _ h => h.1) ?_ ?_ ?_
  · exact fun _ f hf => ⟨_, hf, fun _ h => absurd (Set.mem_univ _) h, trivial⟩
  · exact fun _ f hf => hf.1.elim
  · exact fun f hf => hf.1

theorem changes_clearSessions :
    Changes P (fun _ => True) {slot | slot.1 = .sessions} (fun _ => True) (do
      let count ← recordCount (.records .sessions)
      Prog.modify clearSlots
      eraseNamespace P (.records .sessions) "session"
      pure count) := by
  intro m
  refine clearSessionsJob_spec.weaken (fun _ h => h.1) ?_ ?_ ?_
  · refine fun _ f hf => ⟨_, hf, fun slot hslot => ?_, trivial⟩
    have hkind : slot.1 ≠ .sessions := hslot
    simp [Image.clear, hkind]
  · exact fun _ f hf => hf.1.elim
  · exact fun f hf => hf.1

/-! ### What the mirror updates repair -/

theorem repairs_mirrorIdentity (a : String) (key : IdentityKey) :
    Repairs P {(.identities, asBytes a)} (fun m => m.records .identities (asBytes a) = some key.1)
      (StoreInner.mirrorIdentity P a key) := by
  intro s m hQ e he
  rcases mirroredIn_mirrorIdentity he with rfl | he
  · exact Or.inr (identity_eq_some.mpr hQ)
  · exact Or.inl he

theorem repairs_mirrorSession (a : String) (v : Bytes) :
    Repairs P {(.sessions, asBytes a)} (fun m => m.records .sessions (asBytes a) = some v)
      (StoreInner.mirrorSession P a v) := by
  intro s m hQ e he
  rcases mirroredIn_mirrorSession he with rfl | he
  · exact Or.inr hQ
  · exact Or.inl he

theorem syncKey_of_record {keyId payload : Bytes} {key : SyncKey}
    (hdec : P.syncKey.fromSlice payload = .ok key)
    (h : m.records .syncKeys keyId = some payload) : m.syncKey P keyId = some key := by
  rw [Image.syncKey, h]
  simp [hdec, Except.toOption]

theorem repairs_setSyncKey (keyId payload : Bytes) {key : SyncKey}
    (hdec : P.syncKey.fromSlice payload = .ok key) :
    Repairs P {(.syncKeys, keyId)} (fun m => m.records .syncKeys keyId = some payload)
      fun s => { s with latestSyncKeyId := some keyId }.mirrorSyncKey P keyId key := by
  intro s m hQ e he
  rcases mirroredIn_mirrorSyncKey he with rfl | ⟨he, hslot⟩
  · exact Or.inr (syncKey_of_record hdec hQ)
  · refine Or.inl ⟨?_, hslot⟩
    cases e <;> exact he

theorem repairs_removeIdentity (a : String) :
    Repairs P {(.identities, asBytes a)} (fun _ => True)
      fun s => { s with identities := s.identities.remove a } := by
  intro s m _ e he
  left
  cases e with
  | identity address key =>
    have hl : (s.identities.map.erase a).lookup address = some key := he
    rw [AList.lookup_erase_eq] at hl
    split_ifs at hl with ha
    exact ⟨hl, by simpa [slot] using ha⟩
  | session address record => exact ⟨he, by simp [slot]⟩
  | syncKey keyId key => exact ⟨he, by simp [slot]⟩

theorem repairs_removeSession (a : String) :
    Repairs P {(.sessions, asBytes a)} (fun _ => True)
      fun s => { s with sessions := s.sessions.remove a } := by
  intro s m _ e he
  left
  cases e with
  | identity address key => exact ⟨he, by simp [slot]⟩
  | session address record =>
    have hl : (s.sessions.map.erase a).lookup address = some record := he
    rw [AList.lookup_erase_eq] at hl
    split_ifs at hl with ha
    exact ⟨hl, by simpa [slot] using ha⟩
  | syncKey keyId key => exact ⟨he, by simp [slot]⟩

/-- An update of the other maps. -/
theorem repairs_other {kind : Kind} {k : Bytes} {Q : Image Device → Prop}
    {change : StoreInner Device SyncKey → StoreInner Device SyncKey}
    (hkind : kind = .prekeys ∨ kind = .signedPrekeys ∨ kind = .senderKeys)
    (h : ∀ s (e : Entry SyncKey), e.MirroredIn (change s) → e.MirroredIn s) :
    Repairs P {(kind, k)} Q change := by
  intro s m _ e he
  refine Or.inl ⟨h s e he, ?_⟩
  rcases hkind with rfl | rfl | rfl <;> cases e <;> simp [slot]

/-! ### Readers -/

variable (P) in
/-- A flash read that finds in the record of `slot` what `F` says, or nothing. -/
def Finds (slot : Kind × Bytes) (F : β → Option Bytes → Prop) (j : FlashM (Option β)) : Prop :=
  (∀ ns, Keeps (fun f => f.namespaces = ns) j) ∧
  ∀ m, Triple (Shows P .calm m) j
    (fun r f => Shows P .calm m f ∧ ∀ v, r = some v → F v (m.records slot.1 slot.2))
    (fun _ => Shows P .calm m) (fun _ => False)

section Readers

variable {slot : Kind × Bytes} {F : β → Option Bytes → Prop}

/-- The flash read of a lookup.  What is found is still stored when the record is mirrored, because
the reader watches it. -/
theorem keepsSound_readingBind {mirrored : β → Bool} {j : FlashM (Option β)}
    {k : Option β → StoreT Device SyncKey α} (hj : Finds P slot F j)
    (hnone : KeepsSound P i ∅ none (k none))
    (hskip : ∀ v, mirrored v = false → KeepsSound P i ∅ none (k (some v)))
    (hsome : ∀ v, mirrored v = true → Ensures (racing P ι) i ∅ (some slot)
      (fun s => Good P s ∧ F v ((s.content P).records slot.1 slot.2)) (k (some v))
      (fun _ => Quiet P ∅) (Quiet P ∅)) :
    KeepsSound P i ∅ none (Threaded.reading slot.1 slot.2 mirrored j >>= k) := by
  refine Ensures.actBind (M := fun r s => Good P s ∧
    ∀ v, r = some v → F v ((s.content P).records slot.1 slot.2)) stable_quiet ?_ (fun _ => rfl) ?_
  · intro s hs
    have hns : (run j s).2.flash.namespaces = s.flash.namespaces :=
      (hj.1 s.flash.namespaces).snd rfl
    have hrun := triple_runFlash (hj.2 (s.content P)) s hs.1.shows
    have hinner : (run j s).2.inner = s.inner := rfl
    generalize run j s = r at hns hrun hinner
    have hgrown : Grown P s r.2 := ⟨hns, fun e he => Or.inl (by rwa [hinner] at he)⟩
    obtain ⟨v | e | _, s'⟩ := r
    · refine ⟨⟨fun _ => .of_shows hrun.1, fun _ => hgrown⟩, .of_shows hrun.1, fun v hv => ?_⟩
      rw [hgrown.content_eq]
      exact hrun.2 v hv
    · exact ⟨⟨fun _ => .of_shows hrun, fun _ => hgrown⟩, .of_shows hrun, nofun⟩
    · exact hrun.elim
  · intro r
    cases r with
    | none => exact hnone.weaken (fun _ hs => ⟨hs.1, nofun⟩) (fun _ _ => id) fun _ => id
    | some v =>
      cases hv : mirrored v with
      | false =>
        simp only [hv]
        exact (hskip v hv).weaken (fun _ hs => ⟨hs.1, nofun⟩) (fun _ _ => id) fun _ => id
      | true =>
        simp only [hv]
        exact (hsome v hv).weaken (fun _ hs => ⟨hs.1, hs.2 v rfl⟩) (fun _ _ => id) fun _ => id

/-- The end of a lookup on the flash: the record is mirrored and returned. -/
theorem ensures_mirroring {F : Option Bytes → Prop}
    {change : StoreInner Device SyncKey → StoreInner Device SyncKey} (r : α)
    (h : ∀ s m, F (m.records slot.1 slot.2) → ∀ e : Entry SyncKey, e.MirroredIn (change s) →
      e.MirroredIn s ∨ e.StoredIn P m) :
    Ensures (racing P ι) i ∅ (some slot)
      (fun s => Good P s ∧ F ((s.content P).records slot.1 slot.2)) (do
        Thread.withLock .inner (Threaded.mirrors (update change))
        pure r : StoreT Device SyncKey α) (fun _ => Quiet P ∅) (Quiet P ∅) := by
  have hstable : ∀ H, Stable (racing P ι) i H (some slot)
      (fun s => Good P s ∧ F ((s.content P).records slot.1 slot.2)) := by
    intro H s s' hs henv
    refine ⟨henv.1 hs.1, ?_⟩
    rw [henv.2.2 slot.1 slot.2 rfl]
    exact hs.2
  have hback : ∀ s s' : NvsStore Device SyncKey, Good P s →
      (racing P ι).env i (insert .inner ∅) none s s' →
      (racing P ι).free .inner s' ∧ Quiet P ∅ s' := fun s s' hs henv =>
    ⟨nofun, henv.1 hs, nofun⟩
  refine Ensures.bind (Ensures.withLock (M := fun _ => Good P) (F := Good P) (by simp)
    (fun s s' hs henv _ => hstable _ s s' hs henv) ?_ (fun _ => hback) hback)
    fun _ => Ensures.pure _ fun _ => id
  refine Ensures.act (hstable _) fun s hs => ?_
  refine ⟨⟨fun hgood => hgood.of_flash rfl, fun _ => ⟨rfl, ?_⟩⟩, hs.1.of_flash rfl⟩
  exact h s.inner (s.content P) hs.2

theorem keepsSound_lookup {get : StoreInner Device SyncKey → Option β}
    {touch : StoreInner Device SyncKey → StoreInner Device SyncKey}
    {k : Option β → StoreT Device SyncKey α}
    (htouch : ∀ s (e : Entry SyncKey), e.MirroredIn (touch s) → e.MirroredIn s)
    (hk : ∀ r, KeepsSound P i ∅ none (k r)) :
    KeepsSound P i ∅ none
      (Thread.withLock .inner (Threaded.mirrors (Threaded.lookup get touch)) >>= k) :=
  (KeepsSound.withInner (by simp) (.mirrors (forgets_lookup htouch))).bind hk

end Readers

theorem finds_loadRecord (kind : Kind) (k : Bytes) (maxValueLen : ℕ)
    (hmax : ∀ v, kind.ValueOk P v → v.length ≤ maxValueLen) :
    Finds P (kind, k) (fun v record => record = some v)
      (loadRecord P (.records kind) k maxValueLen) := by
  refine ⟨loadRecord_namespaces _ _ _, fun m => ?_⟩
  refine (loadRecord_spec kind k maxValueLen hmax).weaken (fun _ => id) ?_ ?_ (fun _ => id)
  · rintro r f ⟨hf, rfl⟩
    exact ⟨hf, fun v hv => hv⟩
  · exact fun _ _ h => h.elim

theorem finds_loadSyncKey (keyId : Bytes) :
    Finds P (.syncKeys, keyId)
      (fun key record => record.bind (fun v => (P.syncKey.fromSlice v).toOption) = some key)
      (loadSyncKey P keyId) := by
  refine ⟨fun _ => (loadSyncKey_readOnly keyId).keeps, fun m => ?_⟩
  refine (loadSyncKey_spec keyId).weaken (fun _ => id) ?_ ?_ (fun _ => id)
  · rintro r f ⟨hf, rfl⟩
    exact ⟨hf, fun v hv => hv⟩
  · exact fun _ _ h => h.elim

theorem keepsSound_loadIdentity (a : String) :
    KeepsSound P i ∅ none (Threaded.loadIdentity P a) := by
  refine keepsSound_lookup (fun s e => by cases e <;> exact id) fun r => ?_
  cases r with
  | some key => exact .pure _
  | none =>
    refine keepsSound_readingBind (finds_loadRecord .identities (asBytes a) 32
      fun v hv => le_of_eq hv) (.pure _) (fun v hv => ?_) fun v hv => ?_
    · rw [Option.isSome_eq_false_iff, Option.isNone_iff_eq_none] at hv
      simp only [hv]
      exact .pure _
    · obtain ⟨key, hkey⟩ := Option.isSome_iff_exists.mp hv
      simp only [hkey]
      refine ensures_mirroring (F := fun record => record = some v) (some key)
        fun s m hF e he => ?_
      rcases mirroredIn_mirrorIdentity he with rfl | he
      · right
        show (m.records .identities (asBytes a)).bind toIdentityKey = some key
        rw [show m.records .identities (asBytes a) = some v from hF]
        exact hkey
      · exact Or.inl he.1

theorem keepsSound_getSession (a : String) :
    KeepsSound P i ∅ none (Threaded.getSession P a) := by
  refine keepsSound_lookup (fun s e => by cases e <;> exact id) fun r => ?_
  cases r with
  | some session => exact .pure _
  | none =>
    refine keepsSound_readingBind (finds_loadRecord .sessions (asBytes a) maxSignalRecordLen
      fun v hv => hv) (.pure _) (fun v hv => nomatch hv) fun v _ => ?_
    refine ensures_mirroring (F := fun record => record = some v) (some v) fun s m hF e he => ?_
    rcases mirroredIn_mirrorSession he with rfl | he
    · exact Or.inr hF
    · exact Or.inl he.1

theorem keepsSound_getSyncKey (keyId : Bytes) :
    KeepsSound P i ∅ none (Threaded.getSyncKey P keyId) := by
  refine keepsSound_lookup (fun s e => by cases e <;> exact id) fun r => ?_
  cases r with
  | some key => exact .pure _
  | none =>
    refine keepsSound_readingBind (finds_loadSyncKey keyId) (.pure _) (fun v hv => nomatch hv)
      fun key _ => ?_
    refine ensures_mirroring (F := fun record =>
      record.bind (fun v => (P.syncKey.fromSlice v).toOption) = some key) (some key)
      fun s m hF e he => ?_
    rcases mirroredIn_mirrorSyncKey he with rfl | he
    · exact Or.inr hF
    · exact Or.inl he.1

/-! ### The calls -/

theorem keepsSound_mirrored (get : StoreInner Device SyncKey → α) :
    KeepsSound P i ∅ none (Threaded.mirrored get) :=
  .withInner (by simp) (.mirrors (forgets_withInner _))

theorem keepsSound_putIdentitiesBatch (entries : List (String × IdentityKey)) :
    KeepsSound P i ∅ none (Threaded.putIdentitiesBatch P entries) := by
  unfold Threaded.putIdentitiesBatch
  split_ifs with hnil
  · exact .pure _
  · refine .writing (by simp) (keepsSound_batch (fun e => {(.identities, asBytes e.1)})
      (fun e m => m.records .identities (asBytes e.1) = some e.2.1) ?_ ?_ entries)
    · exact fun e => changes_putRecord .identities _ _ _ ⟨e.1, rfl⟩ fun _ => e.2.2
    · exact fun e => repairs_mirrorIdentity e.1 e.2

theorem keepsSound_putSessionsBatch (entries : List (String × Bytes)) :
    KeepsSound P i ∅ none (Threaded.putSessionsBatch P entries) := by
  unfold Threaded.putSessionsBatch
  split_ifs with hnil
  · exact .pure _
  · refine .writing (by simp) (keepsSound_batch (fun e => {(.sessions, asBytes e.1)})
      (fun e m => m.records .sessions (asBytes e.1) = some e.2) ?_ ?_ entries)
    · exact fun e => changes_putRecord .sessions _ _ _ ⟨e.1, rfl⟩ fun h => h
    · exact fun e => repairs_mirrorSession e.1 e.2

/-- The slot is checked in one job and written in the next; the mutex keeps it free. -/
theorem keepsSound_putSession (a : String) (v : Bytes) :
    KeepsSound P i ∅ none (Threaded.putSession P a v) := by
  unfold Threaded.putSession
  split_ifs with hlen
  · exact .throw _
  refine .writing (by simp) (.withInner (by simp) ?_)
  refine (KeepsSound.mirrors (forgets_gate _ _ _ _)).bind fun _ => ?_
  refine Ensures.bind (ensures_check (by simp) fun m =>
    checkRecordSlot_spec .sessions (asBytes a) v.length "session") fun name => ?_
  by_cases hk : (asBytes a).length ≤ maxLogicalKeyLen
  · rw [encodeRecord_of_le hk]
    simp only [record_payload]
    have hv : Kind.ValueOk P .sessions v := show v.length ≤ maxSignalRecordLen by omega
    have hjob : Ensures (racing P ι) i (insert .inner (insert .operation ∅)) none
        (fun s => Quiet P (insert .inner (insert .operation ∅)) s ∧
          Admits P .sessions (asBytes a) name s.flash) _ _ _ :=
      ensures_job (by simp) (fun f f' hns ha => ha.of_namespaces (by rw [hns]))
        (changes_setBlob a v name hv)
    refine Ensures.bind (hjob.weaken (fun s hs => ⟨hs.1, hs.2.1⟩) (fun _ _ => id) fun _ => id)
      fun _ => ensures_repair (by simp) (repairs_mirrorSession a v)
  · -- a name was admitted, so the key is not too long
    intro s hs
    exact absurd hs.2.1.length_le hk

theorem keepsSound_setSyncKey (keyId : Bytes) (key : SyncKey) :
    KeepsSound P i ∅ none (Threaded.setSyncKey P keyId key) := by
  refine .writing (by simp) (.withInner (by simp) ?_)
  refine (KeepsSound.mirrors (forgets_gate _ _ _ _)).bind fun _ => ?_
  cases hvec : P.syncKey.toVec key with
  | error e => exact .throw _
  | ok payload =>
    have hdec := P.syncKey.fromSlice_toVec key payload hvec
    exact keepsSound_write (by simp) (changes_writeSyncKey keyId payload hdec)
      (repairs_setSyncKey keyId payload hdec)

theorem keepsSound_hasSignalStateForUser (user : String) :
    KeepsSound P i ∅ none (Threaded.hasSignalStateForUser P user) := by
  have hread : ReadOnly FlashNamespaces.namespaces (do
      let sessions ← namespaceAddresses P (.records .sessions) "session"
      let identities ← namespaceAddresses P (.records .identities) "identity"
      pure (sessions ++ identities)) :=
    (namespaceAddresses_readOnly _ _).bind fun _ =>
      (namespaceAddresses_readOnly _ _).bind fun _ => .pure _
  refine KeepsSound.bind (keepsSound_mirrored _) fun mirrored => ?_
  split_ifs
  · exact .pure _
  · exact .pure _
  · exact (KeepsSound.readJob hread).bind fun _ => .pure _

theorem keepsSound_clearSessions : KeepsSound P i ∅ none (Threaded.clearSessions P) := by
  refine .withOperation (by simp) (.withInner (by simp) ?_)
  refine Ensures.bind ((ensures_job (by simp) (fun _ _ _ => id) changes_clearSessions).weaken
    (fun s hs => ⟨hs, trivial⟩) (fun _ _ => id) fun _ => id) fun count => ?_
  refine Ensures.bind (ensures_repair (by simp) fun s m _ e he => Or.inl ?_)
    fun _ => Ensures.pure _ fun _ => id
  cases e with
  | identity address key => exact ⟨he, by simp [slot]⟩
  | session address record =>
    have hl : (∅ : Dict String Bytes).lookup address = some record := he
    simp at hl
  | syncKey keyId key => exact ⟨he, by simp [slot]⟩

theorem keepsSound_reset : KeepsSound P i ∅ none (Threaded.reset P) := by
  refine .withOperation (by simp) (.withInner (by simp) ?_)
  refine keepsSound_write (by simp) changes_resetAll fun s m _ e he => ?_
  -- nothing is mirrored
  cases e with
  | identity address key =>
    have hl : (∅ : Dict String IdentityKey).lookup address = some key := he
    simp at hl
  | session address record =>
    have hl : (∅ : Dict String Bytes).lookup address = some record := he
    simp at hl
  | syncKey keyId key =>
    have hl : (∅ : Dict Bytes SyncKey).lookup keyId = some key := he
    simp at hl

/-- Every call keeps to the protocol. -/
theorem keepsSound_task (call : Call Device SyncKey α) (hcall : call.isReboot = false) :
    KeepsSound P i ∅ none (task P call) := by
  cases call with
  | putIdentity a key =>
    exact keepsSound_gatedWrite (changes_putRecord .identities (asBytes a) key.1 "identity" ⟨a, rfl⟩
      -- the job spoils the entry, and the mirror is repaired under the same lock
      fun _ => key.2) (repairs_mirrorIdentity a key)
  | putIdentitiesBatch entries => exact keepsSound_putIdentitiesBatch entries
  | loadIdentity a => exact keepsSound_loadIdentity a
  | deleteIdentity a =>
    exact keepsSound_plainWrite (changes_deleteRecord .identities (asBytes a) "identity")
      (repairs_removeIdentity a)
  | putSession a v => exact keepsSound_putSession a v
  | putSessionsBatch entries => exact keepsSound_putSessionsBatch entries
  | getSession a => exact keepsSound_getSession a
  | deleteSession a =>
    exact keepsSound_plainWrite (changes_deleteRecord .sessions (asBytes a) "session")
      (repairs_removeSession a)
  | hasSignalStateForUser user => exact keepsSound_hasSignalStateForUser user
  | storePrekey id record =>
    exact keepsSound_gatedWrite (changes_putRecord .prekeys (u32ToLeBytes id) record "prekey"
      ⟨id, rfl⟩ fun h => h) (repairs_other (Or.inl rfl) fun s e => by cases e <;> exact fun h => h)
  | loadPrekey id => exact keepsSound_mirrored _
  | removePrekey id =>
    exact keepsSound_plainWrite (changes_deleteRecord .prekeys (u32ToLeBytes id) "prekey")
      (repairs_other (Or.inl rfl) fun s e => by cases e <;> exact fun h => h)
  | storeSignedPrekey id record =>
    exact keepsSound_gatedWrite (changes_putRecord .signedPrekeys (u32ToLeBytes id) record
      "signed prekey" ⟨id, rfl⟩ fun h => h)
      (repairs_other (Or.inr (Or.inl rfl)) fun s e => by cases e <;> exact fun h => h)
  | loadSignedPrekey id => exact keepsSound_mirrored _
  | removeSignedPrekey id =>
    exact keepsSound_plainWrite
      (changes_deleteRecord .signedPrekeys (u32ToLeBytes id) "signed prekey")
      (repairs_other (Or.inr (Or.inl rfl)) fun s e => by cases e <;> exact fun h => h)
  | putSenderKey a record =>
    exact keepsSound_gatedWrite (changes_putRecord .senderKeys (asBytes a) record "sender key"
      ⟨a, rfl⟩ fun h => h)
      (repairs_other (Or.inr (Or.inr rfl)) fun s e => by cases e <;> exact fun h => h)
  | getSenderKey a => exact keepsSound_mirrored _
  | deleteSenderKey a =>
    exact keepsSound_plainWrite (changes_deleteRecord .senderKeys (asBytes a) "sender key")
      (repairs_other (Or.inr (Or.inr rfl)) fun s e => by cases e <;> exact fun h => h)
  | setSyncKey keyId key => exact keepsSound_setSyncKey keyId key
  | getSyncKey keyId => exact keepsSound_getSyncKey keyId
  | getLatestSyncKeyId => exact keepsSound_mirrored _
  | save device =>
    exact keepsSound_plainWrite (changes_saveDevice device) fun s m _ e he =>
      -- the device is in no mirror that a reader could be late for
      Or.inl ⟨by cases e <;> exact he, by simp⟩
  | listSessions =>
    show KeepsSound P i ∅ none (Threaded.listSessions P)
    unfold Threaded.listSessions
    split_ifs
    · exact keepsSound_mirrored _
    · exact .readJob (namespaceAddresses_readOnly _ _)
  | clearSessions => exact keepsSound_clearSessions
  | reset => exact keepsSound_reset
  | sealWrites =>
    exact .withOperation (by simp) (.mirrors fun s => ⟨rfl, fun _ => id⟩)
  | reboot => cases hcall

/-! ### Lookups -/

section Lookups

variable {s : NvsStore Device SyncKey}

/-- A lookup on sound mirrors gives what the flash holds. -/
theorem loadIdentity_of_sound (hgood : Good P s) (hsound : Sound P s) (a : String) :
    (loadIdentity P a s).1 = .ok ((s.content P).identity a) := by
  unfold loadIdentity
  rw [Prog.bind_of_ok (show withInner _ s = (.ok (s.inner.identities.map.lookup a), s) from rfl)]
  cases hl : s.inner.identities.map.lookup a with
  | some key =>
    rw [show (s.content P).identity a = some key from hsound (.identity a key) hl]
    rfl
  | none =>
    have hrun := triple_runFlash (loadRecord_spec .identities (asBytes a) 32
      fun v hv => le_of_eq hv) s hgood.shows
    simp only [Prog.bind_run]
    generalize run (loadRecord P (.records .identities) (asBytes a) 32) s = r at hrun
    obtain ⟨v | e | _, s'⟩ := r
    · obtain ⟨-, rfl⟩ := hrun
      show _ = Outcome.ok (((s.content P).records .identities (asBytes a)).bind toIdentityKey)
      cases (s.content P).records .identities (asBytes a) with
      | none => rfl
      | some bytes =>
        simp only [Option.bind_some]
        cases toIdentityKey bytes <;> rfl
    · exact hrun.elim
    · exact hrun.elim

theorem getSession_of_sound (hgood : Good P s) (hsound : Sound P s) (a : String) :
    (getSession P a s).1 = .ok ((s.content P).session a) := by
  unfold getSession
  rw [Prog.bind_of_ok (show withInner _ s = (.ok (s.inner.sessions.map.lookup a), s) from rfl)]
  cases hl : s.inner.sessions.map.lookup a with
  | some session =>
    rw [show (s.content P).session a = some session from hsound (.session a session) hl]
    rfl
  | none =>
    have hrun := triple_runFlash (loadRecord_spec .sessions (asBytes a) maxSignalRecordLen
      fun v hv => hv) s hgood.shows
    simp only [Prog.bind_run]
    generalize run (loadRecord P (.records .sessions) (asBytes a) maxSignalRecordLen) s = r at hrun
    obtain ⟨v | e | _, s'⟩ := r
    · obtain ⟨-, rfl⟩ := hrun
      show _ = Outcome.ok ((s.content P).records .sessions (asBytes a))
      cases (s.content P).records .sessions (asBytes a) <;> rfl
    · exact hrun.elim
    · exact hrun.elim

theorem getSyncKey_of_sound (hgood : Good P s) (hsound : Sound P s) (keyId : Bytes) :
    (getSyncKey P keyId s).1 = .ok ((s.content P).syncKey P keyId) := by
  unfold getSyncKey
  rw [Prog.bind_of_ok (show withInner _ s = (.ok (s.inner.syncKeys.map.lookup keyId), s) from rfl)]
  cases hl : s.inner.syncKeys.map.lookup keyId with
  | some key =>
    rw [show (s.content P).syncKey P keyId = some key from hsound (.syncKey keyId key) hl]
    rfl
  | none =>
    have hrun := triple_runFlash (loadSyncKey_spec keyId) s hgood.shows
    simp only [Prog.bind_run]
    generalize run (loadSyncKey P keyId) s = r at hrun
    obtain ⟨v | e | _, s'⟩ := r
    · obtain ⟨-, rfl⟩ := hrun
      cases (s.content P).syncKey P keyId <;> rfl
    · exact hrun.elim
    · exact hrun.elim

end Lookups

/-! ### Runs -/

variable (P) in
/-- Any calls, on any thread. -/
def raceCalls (_ : ι) (_ : Except StoreError Unit) (p : StoreThread Device SyncKey) : Prop :=
  ∃ (α : Type) (call : Call Device SyncKey α), call.isReboot = false ∧ p = callThread P call

/-- A running store, and threads that do nothing yet. -/
def raceStart (ι : Type) (s : NvsStore Device SyncKey) :
    Config ι Lock (Kind × Bytes) (NvsStore Device SyncKey) (Except StoreError Unit) :=
  .start s fun _ => .ret (.ok ())

/-- No call is in progress. -/
def Idle (c : Config ι Lock (Kind × Bytes) (NvsStore Device SyncKey) (Except StoreError Unit)) :
    Prop := ∀ i, ∃ r, c.threads i = .ret r

variable {s : NvsStore Device SyncKey} {fates : List Fate}
  {c : Config ι Lock (Kind × Bytes) (NvsStore Device SyncKey) (Except StoreError Unit)}

/-- A store that was reached by calls one after the other. -/
theorem Reachable.sound (h : Reachable P (.on s)) (hfates : Weather.calm.Allows fates) :
    Good P (Machine.withFates s fates) ∧ Sound P (Machine.withFates s fates) := by
  obtain ⟨m, latest, accepting, hheld⟩ : Up P .cuts s := h.machineOk
  have hok := hheld.shows.ok
  refine ⟨⟨⟨hok.durable, hok.slots⟩, hfates⟩, fun e he => ?_⟩
  rw [show (Machine.withFates s fates).content P = m from hheld.shows.image_eq]
  have hcoherent := hheld.ram.coherent
  cases e with
  | identity address key => exact hcoherent.identities.sound address key he
  | session address record => exact hcoherent.sessions.sound address record he
  | syncKey keyId key => exact hcoherent.syncKeys.sound keyId key he

theorem raceStart_inv (hgood : Good P s) (hsound : Sound P s) :
    Inv (racing P ι) (raceStart ι s) := by
  refine ⟨fun i => ?_, fun _ _ _ => ⟨hgood, hsound⟩⟩
  rw [raceStart, Config.held_start]
  exact ⟨rfl, rfl, fun _ henv => henv.1 hgood⟩

theorem raceCalls_sat (r : Except StoreError Unit) (p : StoreThread Device SyncKey)
    (h : raceCalls P i r p) (s : NvsStore Device SyncKey) (hs : Good P s) :
    Sat (racing P ι) i (Done (racing P ι) i) ∅ none p s := by
  obtain ⟨α, call, hcall, rfl⟩ := h
  refine Ensures.done ((keepsSound_task call hcall).bind fun _ => .pure ()) ⟨hs, nofun⟩ ?_ ?_
  · exact fun _ s s' hs henv => henv.1 hs.1
  · exact fun _ s s' hs henv => henv.1 hs.1

/-- When no call is in progress the `operation` mutex is free. -/
theorem Idle.owner (hidle : Idle c) (hinv : Inv (racing P ι) c) : c.owner .operation = none := by
  cases howner : c.owner .operation with
  | none => rfl
  | some i =>
    obtain ⟨r, hret⟩ := hidle i
    have hthread := hinv.threads i
    rw [hret] at hthread
    have hmem : Lock.operation ∈ c.held i := howner
    rw [hthread.1] at hmem
    exact hmem.elim

variable [DecidableEq ι]

/-- **The mirrors stay coherent** in every run in which no step changes a record that a reader is
about to mirror: whenever no call is in progress, everything mirrored is what the flash holds, and
the lookups give what the flash holds. -/
theorem unwatched_sound (hs : Reachable P (.on s)) (hfates : Weather.calm.Allows fates)
    (hrun : Relation.ReflTransGen (AnyStep (raceCalls P) (Unwatched P))
      (raceStart ι (Machine.withFates s fates)) c) (hidle : Idle c) :
    Sound P c.state ∧
    (∀ a, (loadIdentity P a c.state).1 = .ok ((c.state.content P).identity a)) ∧
    (∀ a, (getSession P a c.state).1 = .ok ((c.state.content P).session a)) ∧
    ∀ keyId, (getSyncKey P keyId c.state).1 = .ok ((c.state.content P).syncKey P keyId) := by
  obtain ⟨hgood₀, hsound₀⟩ := hs.sound hfates
  have hinv : Inv (racing P ι) c := (raceStart_inv hgood₀ hsound₀).run racing_lawful
    (fun _ r p hp s hpost => raceCalls_sat r p hp s hpost) hrun
  obtain ⟨hgood, hsound⟩ := hinv.free .operation (hidle.owner hinv) rfl
  refine ⟨hsound, fun a => ?_, fun a => ?_, fun keyId => ?_⟩
  · exact loadIdentity_of_sound hgood hsound a
  · exact getSession_of_sound hgood hsound a
  · exact getSyncKey_of_sound hgood hsound keyId

/-- A reader has missed the mirror of a fresh board and is about to read the flash. -/
def lateReader (P : Platform Bytes Bytes) :
    Config Bool Lock (Kind × Bytes) (NvsStore Bytes Bytes) (Except StoreError Unit) :=
  ((raceStart Bool (Machine.withFates (.fresh P) [])).call false
    (callThread P (.loadIdentity "alice"))).schedule (.replicate 3 false)

/-- The identity is stored, and then the reader reads it. -/
def identityRead (P : Platform Bytes Bytes) :
    Config Bool Lock (Kind × Bytes) (NvsStore Bytes Bytes) (Except StoreError Unit) :=
  ((lateReader P).call true (callThread P (.putIdentity "alice" aliceKey))).schedule
    (.replicate 8 true ++ [false])

/-- Another identity is stored before the reader mirrors what it has read. -/
def otherWriter : Config Bool Lock (Kind × Bytes) (NvsStore Bytes Bytes) (Except StoreError Unit) :=
  ((identityRead friendsBoard).call true
    (callThread friendsBoard (.putIdentity "bob" aliceKey))).schedule
    (.replicate 8 true ++ .replicate 3 false)

/-- A turn of a schedule is unwatched if the watched records stay. -/
theorem schedule_unwatched {P : Platform Bytes Bytes}
    {c : Config Bool Lock (Kind × Bytes) (NvsStore Bytes Bytes) (Except StoreError Unit)}
    (turns : List Bool)
    (h : ∀ n < turns.length, ∀ i, ∀ w ∈ (c.schedule (turns.take n)).watch i,
      ((c.schedule (turns.take (n + 1))).state.content P).records w.1 w.2 =
        ((c.schedule (turns.take n)).state.content P).records w.1 w.2) :
    Relation.ReflTransGen (AnyStep (raceCalls P) (Unwatched P)) c (c.schedule turns) :=
  Config.schedule_run turns c fun n hn i kind key hw => h n hn i (kind, key) hw

/-- The other writer does not change the record that the reader has read, and the reader mirrors it
after the other one. -/
theorem otherWriter_sound :
    (identityRead friendsBoard).watch false = some (.identities, asBytes "alice") ∧
    Sound friendsBoard otherWriter.state ∧
    (loadIdentity friendsBoard "alice" otherWriter.state).1 = .ok (some aliceKey) ∧
    otherWriter.state.inner.identities.order = ["bob", "alice"] := by
  have hfresh : Reachable friendsBoard (.on (.fresh friendsBoard)) :=
    Relation.ReflTransGen.refl.tail (.boot emptyPartition [] nofun)
  have hstart : Relation.ReflTransGen (AnyStep (raceCalls friendsBoard) (Unwatched friendsBoard))
      (raceStart Bool (Machine.withFates (.fresh friendsBoard) [])) (lateReader friendsBoard) :=
    (Config.call_run (b := .ok ()) rfl ⟨_, _, rfl, rfl⟩ fun _ _ _ _ => rfl).trans
      (schedule_unwatched _ (by decide +kernel))
  have hread : Relation.ReflTransGen (AnyStep (raceCalls friendsBoard) (Unwatched friendsBoard))
      (lateReader friendsBoard) (identityRead friendsBoard) :=
    (Config.call_run (b := .ok ()) rfl ⟨_, _, rfl, rfl⟩ fun _ _ _ _ => rfl).trans
      (schedule_unwatched _ (by decide +kernel))
  have hwrite : Relation.ReflTransGen (AnyStep (raceCalls friendsBoard) (Unwatched friendsBoard))
      (identityRead friendsBoard) otherWriter :=
    (Config.call_run (b := .ok ()) rfl ⟨_, _, rfl, rfl⟩ fun _ _ _ _ => rfl).trans
      (schedule_unwatched _ (by decide +kernel))
  have hcalm : Weather.calm.Allows [] := nofun
  have hidle : Idle otherWriter := by
    intro i
    cases i with
    | false => exact ⟨_, rfl⟩
    | true => exact ⟨_, rfl⟩
  obtain ⟨hsound, hidentity, -, -⟩ :=
    unwatched_sound hfresh hcalm (hstart.trans (hread.trans hwrite)) hidle
  refine ⟨by decide +kernel, hsound, ?_, by decide +kernel⟩
  rw [hidentity, show (otherWriter.state.content friendsBoard).identity "alice" = some aliceKey by
    decide +kernel]

/-- The identity is deleted, and then the reader mirrors it. -/
def lateMirror : Config Bool Lock (Kind × Bytes) (NvsStore Bytes Bytes) (Except StoreError Unit) :=
  ((identityRead aliceBoard).call true
    (callThread aliceBoard (.deleteIdentity "alice"))).schedule
    (.replicate 7 true ++ .replicate 3 false)

/-- The deleted identity is in the mirror and is found again. -/
theorem lateMirror_unsound :
    Relation.ReflTransGen (AnyStep (raceCalls aliceBoard) fun _ _ => True)
      (raceStart Bool (Machine.withFates (.fresh aliceBoard) [])) lateMirror ∧
    Idle lateMirror ∧ ¬Sound aliceBoard lateMirror.state ∧
    (lateMirror.state.content aliceBoard).identity "alice" = none ∧
    (loadIdentity aliceBoard "alice" lateMirror.state).1 = .ok (some aliceKey) := by
  have hstart : Relation.ReflTransGen (AnyStep (raceCalls aliceBoard) fun _ _ => True)
      (raceStart Bool (Machine.withFates (.fresh aliceBoard) [])) (lateReader aliceBoard) :=
    (Config.call_run (b := .ok ()) rfl ⟨_, _, rfl, rfl⟩ trivial).trans
      (Config.schedule_run _ _ fun _ _ => trivial)
  have hread : Relation.ReflTransGen (AnyStep (raceCalls aliceBoard) fun _ _ => True)
      (lateReader aliceBoard) (identityRead aliceBoard) :=
    (Config.call_run (b := .ok ()) rfl ⟨_, _, rfl, rfl⟩ trivial).trans
      (Config.schedule_run _ _ fun _ _ => trivial)
  have hmirror : Relation.ReflTransGen (AnyStep (raceCalls aliceBoard) fun _ _ => True)
      (identityRead aliceBoard) lateMirror :=
    (Config.call_run (b := .ok ()) rfl ⟨_, _, rfl, rfl⟩ trivial).trans
      (Config.schedule_run _ _ fun _ _ => trivial)
  have hgone : (lateMirror.state.content aliceBoard).identity "alice" = none := by decide +kernel
  have hmirrored : lateMirror.state.inner.identities.map.lookup "alice" = some aliceKey := by
    decide +kernel
  refine ⟨hstart.trans (hread.trans hmirror), fun i => ?_, fun hsound => ?_, hgone, rfl⟩
  · cases i with
    | false => exact ⟨_, rfl⟩
    | true => exact ⟨_, rfl⟩
  · have hstored := hsound (.identity "alice" aliceKey) hmirrored
    exact nomatch hgone.symm.trans hstored

end WhatsappEsp32
