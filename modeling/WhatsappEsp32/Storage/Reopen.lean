import WhatsappEsp32.Storage.Refinement

/-!
# Reopening after power losses

A device that runs the store, loses power anywhere (between two calls, or at any flash primitive
of a call or of a boot) and is booted again any number of times.

* `Machine`, `Machine.Step`, `Reachable`: the system, started on an empty partition;
* `up_exec`: every call, at whatever primitive it is cut off, keeps the invariant of the flash;
* `reachable_reopens`: a reachable partition can always be opened, and the opened store answers
  from its flash.
-/

namespace WhatsappEsp32

open CrashLogic FlashNamespaces NvsStore

variable {Device SyncKey α : Type}

/-! ### The system -/

/-- The device is without a running store, or runs one. -/
inductive Machine (Device SyncKey : Type)
  | off (namespaces : Ns → Namespace)
  | on (store : NvsStore Device SyncKey)

namespace Machine

/-- What the partition holds. -/
def namespaces : Machine Device SyncKey → Ns → Namespace
  | .off namespaces => namespaces
  | .on store => store.flash.namespaces

/-- The script of the primitives of the next call. -/
def withFates (s : NvsStore Device SyncKey) (fates : List Fate) : NvsStore Device SyncKey :=
  { s with flash := { s.flash with fates := fates } }

theorem withFates_nil {s : NvsStore Device SyncKey} (h : s.flash.fates = []) :
    withFates s [] = s := by
  rw [withFates, ← h]

/-- After a call: an error is returned to the caller, a power loss ends the store. -/
def afterCall : Outcome StoreError α × NvsStore Device SyncKey → Machine Device SyncKey
  | (.ok _, s) => .on s
  | (.error _, s) => .on s
  | (.halted, s) => .off s.flash.namespaces

/-- After an attempt to open the partition. -/
def afterOpen :
    Outcome StoreError (StoreInner Device SyncKey) × FlashNamespaces → Machine Device SyncKey
  | (.ok mirrors, flash) => .on ⟨mirrors, flash, true⟩
  | (.error _, flash) => .off flash.namespaces
  | (.halted, flash) => .off flash.namespaces

/-- The primitives of a call or a boot succeed, or one of them is cut off by a power loss. -/
inductive Step (P : Platform Device SyncKey) : Machine Device SyncKey → Machine Device SyncKey → Prop
  | boot (namespaces : Ns → Namespace) (fates : List Fate) (hfates : Weather.cuts.Allows fates) :
      Step P (.off namespaces) (afterOpen (openPartition P namespaces fates))
  | call (s : NvsStore Device SyncKey) {α : Type} (call : Call Device SyncKey α)
      (hcall : call.isReboot = false) (fates : List Fate) (hfates : Weather.cuts.Allows fates) :
      Step P (.on s) (afterCall (exec P call (withFates s fates)))
  | powerLoss (s : NvsStore Device SyncKey) : Step P (.on s) (.off s.flash.namespaces)

end Machine

/-- Reachable from an empty partition. -/
def Reachable (P : Platform Device SyncKey) (machine : Machine Device SyncKey) : Prop :=
  Relation.ReflTransGen (Machine.Step P) (.off emptyPartition) machine

/-- A call that succeeds leads to a running store. -/
theorem Reachable.call {P : Platform Device SyncKey} {s : NvsStore Device SyncKey}
    (h : Reachable P (.on s)) (call : Call Device SyncKey α) (hcall : call.isReboot = false) {a : α}
    (hfates : s.flash.fates.isEmpty = true) (hok : (exec P call s).1 = .ok a) :
    Reachable P (.on (exec P call s).2) := by
  have hstep := h.tail (Machine.Step.call s call hcall [] nofun)
  rw [Machine.withFates_nil (List.isEmpty_iff.mp hfates)] at hstep
  generalize exec P call s = r at hok hstep ⊢
  obtain ⟨o, s'⟩ := r
  cases hok
  exact hstep

/-! ### The invariant -/

variable {P : Platform Device SyncKey} {w : Weather} {m : Image Device} {latest : Option Bytes}
  {accepting : Bool}

variable (P) in
/-- A store is running and keeps its invariant. -/
def Up (w : Weather) (s : NvsStore Device SyncKey) : Prop :=
  ∃ m latest accepting, Held P w m latest accepting s

theorem Held.up {s : NvsStore Device SyncKey} (h : Held P w m latest accepting s) : Up P w s :=
  ⟨m, latest, accepting, h⟩

theorem up_read {op : StoreM Device SyncKey α} {Q : α → Prop}
    (h : Triple (Held P w m latest accepting) op
      (fun r s => Held P w m latest accepting s ∧ Q r) (fun _ _ => False) (fun _ => False)) :
    Triple (Held P w m latest accepting) op (fun _ => Up P w) (fun _ => Up P w) (Lost P w) :=
  h.weaken (fun _ => id) (fun _ _ hs => hs.1.up) (fun _ _ => False.elim) (fun _ => False.elim)

section

variable {m' : Image Device} {latest' : Option Bytes} (hw : ¬w.mayFail)

include hw

theorem Refused.up {s : NvsStore Device SyncKey} (h : Refused P w m latest accepting s) :
    Up P w s := h.elim Held.up fun hb => absurd hb.1 hw

theorem up_write {op : StoreM Device SyncKey Unit}
    (h : Triple (Held P w m latest accepting) op (fun _ => Held P w m' latest' accepting)
      (fun _ => Refused P w m latest accepting) (Lost P w)) :
    Triple (Held P w m latest accepting) op (fun _ => Up P w) (fun _ => Up P w) (Lost P w) :=
  h.weaken (fun _ => id) (fun _ _ => Held.up) (fun _ _ => Refused.up hw) (fun _ => id)

theorem up_batch {β : Type} {entries : List β} {content : List β → Image Device}
    {op : StoreM Device SyncKey Unit}
    (h : Triple (Held P w m latest accepting) op (fun _ => Held P w m' latest' accepting)
      (fun _ => BatchRefused P w entries content latest accepting) (Lost P w)) :
    Triple (Held P w m latest accepting) op (fun _ => Up P w) (fun _ => Up P w) (Lost P w) := by
  refine h.weaken (fun _ => id) (fun _ _ => Held.up) ?_ (fun _ => id)
  rintro _ s (⟨n, -, hs⟩ | hb)
  · exact hs.up
  · exact absurd hb.1 hw

theorem up_erase {op : StoreM Device SyncKey α}
    (h : Triple (Held P w m latest accepting) op (fun _ => Held P w m' latest' accepting)
      (fun _ s => Broken P w w.mayFail s.flash) (Lost P w)) :
    Triple (Held P w m latest accepting) op (fun _ => Up P w) (fun _ => Up P w) (Lost P w) :=
  h.weaken (fun _ => id) (fun _ _ => Held.up) (fun _ _ hb => absurd hb.1 hw) (fun _ => id)

/-- Every call keeps the invariant of a running store; if the power goes during the call, the
flash keeps its own. -/
theorem up_exec (call : Call Device SyncKey α) (hcall : call.isReboot = false) :
    Triple (Up P w) (exec P call) (fun _ => Up P w) (fun _ => Up P w) (Lost P w) := by
  rintro s ⟨m, latest, accepting, hs⟩
  revert s
  change Triple (Held P w m latest accepting) _ _ _ _
  cases call with
  | putIdentity address key => exact up_write hw (putIdentity_spec address key)
  | putIdentitiesBatch entries => exact up_batch hw (putIdentitiesBatch_spec entries)
  | loadIdentity address => exact up_read (loadIdentity_spec address)
  | deleteIdentity address => exact up_write hw (deleteIdentity_spec address)
  | putSession address session => exact up_write hw (putSession_spec address session)
  | putSessionsBatch entries => exact up_batch hw (putSessionsBatch_spec entries)
  | getSession address => exact up_read (getSession_spec address)
  | deleteSession address => exact up_write hw (deleteSession_spec address)
  | hasSignalStateForUser user => exact up_read (hasSignalStateForUser_spec user)
  | storePrekey id record => exact up_write hw (storePrekey_spec id record)
  | loadPrekey id => exact up_read (withInner_spec (Q := fun _ => True) fun _ _ => trivial)
  | removePrekey id => exact up_write hw (removePrekey_spec id)
  | storeSignedPrekey id record => exact up_write hw (storeSignedPrekey_spec id record)
  | loadSignedPrekey id => exact up_read (withInner_spec (Q := fun _ => True) fun _ _ => trivial)
  | removeSignedPrekey id => exact up_write hw (removeSignedPrekey_spec id)
  | putSenderKey address record => exact up_write hw (putSenderKey_spec address record)
  | getSenderKey address => exact up_read (withInner_spec (Q := fun _ => True) fun _ _ => trivial)
  | deleteSenderKey address => exact up_write hw (deleteSenderKey_spec address)
  | setSyncKey keyId key =>
    refine (setSyncKey_spec keyId key).weaken (fun _ => id) ?_ (fun _ _ => Refused.up hw)
      (fun _ => id)
    rintro _ s ⟨payload, -, hs⟩
    exact hs.up
  | getSyncKey keyId => exact up_read (getSyncKey_spec keyId)
  | getLatestSyncKeyId => exact up_read (withInner_spec (Q := fun _ => True) fun _ _ => trivial)
  | save device => exact up_write hw (save_spec device)
  | listSessions => exact up_read listSessions_spec
  | clearSessions => exact up_erase hw clearSessions_spec
  | reset => exact up_erase hw reset_spec
  | sealWrites =>
    exact sealWrites_spec.weaken (fun _ => id) (fun _ _ => Held.up) (fun _ _ => False.elim)
      (fun _ => False.elim)
  | reboot => cases hcall

end

variable (P) in
/-- The invariant of the system. -/
def MachineOk : Machine Device SyncKey → Prop
  | .off namespaces => DurableOk P namespaces
  | .on s => Up P .cuts s

theorem MachineOk.durableOk {machine : Machine Device SyncKey} (h : MachineOk P machine) :
    DurableOk P machine.namespaces := by
  cases machine with
  | off namespaces => exact h
  | on s =>
    obtain ⟨m, latest, accepting, hs⟩ := h
    exact hs.shows.ok.durable

theorem DurableOk.shows {namespaces : Ns → Namespace} (h : DurableOk P namespaces)
    {fates : List Fate} (hfates : w.Allows fates) :
    Shows P w (image P namespaces) ⟨namespaces, [], fates⟩ :=
  ⟨⟨h, fun _ hslot => by cases hslot⟩, rfl, hfates⟩

/-- An attempt to open a good partition succeeds, or the power goes and the partition is good
again. -/
theorem openPartition_spec {namespaces : Ns → Namespace} (h : DurableOk P namespaces)
    {fates : List Fate} (hfates : w.Allows fates) :
    (openPartition P namespaces fates).1.Meets
      (fun s => Shows P w (image P namespaces).booted (openPartition P namespaces fates).2 ∧
        Coherent P s (image P namespaces).booted ∧
        LatestFrom P s.latestSyncKeyId (image P namespaces).booted)
      (fun _ => Broken P w w.mayFail (openPartition P namespaces fates).2)
      (Broken P w w.mayCut (openPartition P namespaces fates).2) :=
  openFlash_spec _ (h.shows hfates)

theorem machineOk_boot {namespaces : Ns → Namespace} (h : DurableOk P namespaces)
    {fates : List Fate} (hfates : Weather.cuts.Allows fates) :
    MachineOk P (Machine.afterOpen (openPartition P namespaces fates)) := by
  have hopen := openPartition_spec h hfates
  generalize openPartition P namespaces fates = r at hopen
  rcases r with ⟨mirrors | e | _, flash⟩
  · obtain ⟨hshows, hcoherent, -⟩ := hopen
    exact ⟨_, mirrors.latestSyncKeyId, true, hshows, hcoherent, rfl, rfl⟩
  · exact hopen.1.elim
  · obtain ⟨-, m', hshows⟩ := hopen
    exact hshows.ok.durable

theorem machineOk_call {s : NvsStore Device SyncKey} (h : Up P .cuts s)
    (call : Call Device SyncKey α) (hcall : call.isReboot = false) {fates : List Fate}
    (hfates : Weather.cuts.Allows fates) :
    MachineOk P (Machine.afterCall (exec P call (Machine.withFates s fates))) := by
  obtain ⟨m, latest, accepting, hs⟩ := h
  have hs' : Held P .cuts m latest accepting (Machine.withFates s fates) :=
    ⟨⟨⟨hs.shows.ok.durable, hs.shows.ok.slots⟩, hs.shows.image_eq, hfates⟩, { hs.ram with }⟩
  have hexec := up_exec (w := .cuts) (fun h => h) call hcall _ hs'.up
  generalize exec P call (Machine.withFates s fates) = r at hexec
  rcases r with ⟨answer | e | _, s'⟩
  · exact hexec
  · exact hexec
  · obtain ⟨-, m', hshows⟩ := hexec
    exact hshows.ok.durable

theorem MachineOk.step {machine machine' : Machine Device SyncKey} (h : MachineOk P machine)
    (hstep : Machine.Step P machine machine') : MachineOk P machine' := by
  cases hstep with
  | boot namespaces fates hfates => exact machineOk_boot h hfates
  | call s call hcall fates hfates => exact machineOk_call h call hcall hfates
  | powerLoss s => exact h.durableOk

theorem Reachable.machineOk {machine : Machine Device SyncKey} (h : Reachable P machine) :
    MachineOk P machine := by
  induction h with
  | refl => exact durableOk_emptyPartition P
  | tail _ hstep ih => exact ih.step hstep

/-! ### Lookups after a boot -/

/-- The call only looks something up. -/
def Call.isLookup : Call Device SyncKey α → Bool
  | .loadIdentity _ | .getSession _ | .hasSignalStateForUser _ | .loadPrekey _
  | .loadSignedPrekey _ | .getSenderKey _ | .getSyncKey _ | .getLatestSyncKeyId
  | .listSessions => true
  | _ => false

variable (P) in
/-- The store after some calls. -/
def afterCalls (calls : List ((α : Type) × Call Device SyncKey α)) (s : NvsStore Device SyncKey) :
    NvsStore Device SyncKey := calls.foldl (fun s c => (exec P c.2 s).2) s

variable (P) in
/-- Every lookup returns what the given namespaces hold, and the latest sync key is there unless
there is no sync key at all. -/
structure AnswersFrom (namespaces : Ns → Namespace) (s : NvsStore Device SyncKey) : Prop where
  identity : ∀ a, ∃ r, (loadIdentity P a s).1 = .ok r ∧
    r.map Subtype.val = stored P (namespaces (.records .identities)) (asBytes a)
  session : ∀ a, (getSession P a s).1 = .ok (stored P (namespaces (.records .sessions)) (asBytes a))
  prekey : ∀ id, (loadPrekey id s).1 =
    .ok (stored P (namespaces (.records .prekeys)) (u32ToLeBytes id))
  signedPrekey : ∀ id, (loadSignedPrekey id s).1 =
    .ok (stored P (namespaces (.records .signedPrekeys)) (u32ToLeBytes id))
  senderKey : ∀ a, (getSenderKey a s).1 =
    .ok (stored P (namespaces (.records .senderKeys)) (asBytes a))
  syncKey : ∀ k, ∃ r, (getSyncKey P k s).1 = .ok r ∧
    r.map Except.ok = (stored P (namespaces (.records .syncKeys)) k).map P.syncKey.fromSlice
  device : s.inner.device = storedDevice P (namespaces .device)
  latest_none : (getLatestSyncKeyId s).1 = .ok none ↔ (namespaces (.records .syncKeys)).keys = []
  latest_some : ∀ id, (getLatestSyncKeyId s).1 = .ok (some id) →
    stored P (namespaces (.records .syncKeys)) id ≠ none

/-- A lookup that meets its specification returns the specified value. -/
theorem answer_of_spec {op : StoreM Device SyncKey α} {answer : α} {s : NvsStore Device SyncKey}
    (hs : Held P w m latest accepting s)
    (h : Triple (Held P w m latest accepting) op
      (fun r s => Held P w m latest accepting s ∧ r = answer) (fun _ _ => False)
      (fun _ => False)) : (op s).1 = .ok answer := by
  have hop := h s hs
  generalize op s = r at hop
  rcases r with ⟨r | e | _, s'⟩
  · rw [← hop.2]
  · exact hop.elim
  · exact hop.elim

theorem Held.answersFrom {s : NvsStore Device SyncKey} {namespaces : Ns → Namespace}
    (hs : Held P w (image P namespaces) latest accepting s) (hdurable : DurableOk P namespaces)
    (hlatest : LatestOk latest (image P namespaces)) : AnswersFrom P namespaces s where
  identity a := by
    refine ⟨_, answer_of_spec hs (loadIdentity_spec a), ?_⟩
    have hrec : (image P namespaces).records .identities (asBytes a) =
      stored P (namespaces (.records .identities)) (asBytes a) := rfl
    rw [← hrec]
    cases hr : (image P namespaces).records .identities (asBytes a) with
    | none => simp [Image.identity, hr]
    | some v =>
      -- boot has refused every other length
      have hv : v.length = 32 := hs.shows.imageOk.valueOk hr
      simp [Image.identity, hr, toIdentityKey_of_length hv]
  session a := answer_of_spec hs (getSession_spec a)
  prekey id := answer_of_spec hs (withInner_spec fun _ h => h.ram.coherent.prekeys.lookup_eq id)
  signedPrekey id :=
    answer_of_spec hs (withInner_spec fun _ h => h.ram.coherent.signedPrekeys.lookup_eq id)
  senderKey a := answer_of_spec hs (withInner_spec fun _ h => h.ram.coherent.senderKeys.lookup_eq a)
  syncKey k := by
    refine ⟨_, answer_of_spec hs (getSyncKey_spec k), ?_⟩
    have hrec : (image P namespaces).records .syncKeys k =
      stored P (namespaces (.records .syncKeys)) k := rfl
    rw [← hrec]
    cases hr : (image P namespaces).records .syncKeys k with
    | none => simp [Image.syncKey, hr]
    | some v =>
      obtain ⟨-, key, hkey⟩ := hs.shows.imageOk.valueOk hr
      simp [Image.syncKey, hr, hkey, Except.toOption]
  device := hs.ram.coherent.device
  latest_none := by
    have hget : (getLatestSyncKeyId s).1 = .ok latest :=
      answer_of_spec hs (withInner_spec fun _ h => h.ram.latest_eq)
    rw [hget, Outcome.ok.injEq, (hdurable.kinds .syncKeys).keys_eq_nil_iff]
    exact hlatest.none_iff
  latest_some id hid := by
    have hget : (getLatestSyncKeyId s).1 = .ok latest :=
      answer_of_spec hs (withInner_spec fun _ h => h.ram.latest_eq)
    rw [hget, Outcome.ok.injEq] at hid
    have hsome := hlatest.present id hid
    intro hnone
    rw [show (image P namespaces).records .syncKeys id = none from hnone] at hsome
    cases hsome

theorem held_of_read {op : StoreM Device SyncKey α} {Q : α → Prop} {s : NvsStore Device SyncKey}
    (hs : Held P w m latest accepting s)
    (h : Triple (Held P w m latest accepting) op
      (fun r s => Held P w m latest accepting s ∧ Q r) (fun _ _ => False) (fun _ => False)) :
    Held P w m latest accepting (op s).2 := by
  have hop := h s hs
  generalize op s = r at hop
  rcases r with ⟨r | e | _, s'⟩
  · exact hop.1
  · exact hop.elim
  · exact hop.elim

/-- A lookup may change what is mirrored, and nothing else. -/
theorem Held.lookup {s : NvsStore Device SyncKey} (hs : Held P w m latest accepting s)
    {call : Call Device SyncKey α} (hcall : call.isLookup = true) :
    Held P w m latest accepting (exec P call s).2 := by
  cases call with
  | loadIdentity address => exact held_of_read hs (loadIdentity_spec address)
  | getSession address => exact held_of_read hs (getSession_spec address)
  | hasSignalStateForUser user => exact held_of_read hs (hasSignalStateForUser_spec user)
  | getSyncKey keyId => exact held_of_read hs (getSyncKey_spec keyId)
  | listSessions => exact held_of_read hs listSessions_spec
  | loadPrekey id => exact hs
  | loadSignedPrekey id => exact hs
  | getSenderKey address => exact hs
  | getLatestSyncKeyId => exact hs
  | _ => cases hcall

theorem Held.lookups {s : NvsStore Device SyncKey} (hs : Held P w m latest accepting s)
    {calls : List ((α : Type) × Call Device SyncKey α)}
    (hcalls : ∀ c ∈ calls, c.2.isLookup = true) :
    Held P w m latest accepting (afterCalls P calls s) := by
  induction calls generalizing s with
  | nil => exact hs
  | cons c calls ih =>
    exact ih (hs.lookup (hcalls c (by simp))) fun c' hc' => hcalls c' (by simp [hc'])

/-! ### The main result -/

/-- A boot that is not cut off succeeds. -/
theorem open_ok_of_done {namespaces : Ns → Namespace} (h : DurableOk P namespaces)
    {fates : List Fate} (hfates : ∀ fate ∈ fates, fate = .done) :
    ∃ mirrors flash, openPartition P namespaces fates = (.ok mirrors, flash) := by
  have hcalm : Weather.calm.Allows fates := by
    intro fate hfate
    rw [hfates fate hfate]
    trivial
  have hopen := openPartition_spec h hcalm
  generalize openPartition P namespaces fates = r at hopen
  rcases r with ⟨mirrors | e | _, flash⟩
  · exact ⟨mirrors, flash, rfl⟩
  · exact hopen.1.elim
  · exact hopen.1.elim

/-- A boot that is not stopped by a power loss ends with a store that answers from the flash. -/
theorem open_answersFrom {namespaces : Ns → Namespace} (h : DurableOk P namespaces)
    {fates : List Fate} (hfates : w.Allows fates)
    (hpending : (namespaces .control).lookup "reset" = none)
    (hdevice : (namespaces .device).lookup "current" ≠ none) {mirrors : StoreInner Device SyncKey}
    {flash : FlashNamespaces} (hopen : openPartition P namespaces fates = (.ok mirrors, flash))
    {calls : List ((α : Type) × Call Device SyncKey α)}
    (hcalls : ∀ c ∈ calls, c.2.isLookup = true) :
    AnswersFrom P namespaces (afterCalls P calls ⟨mirrors, flash, true⟩) := by
  have hspec := openPartition_spec h hfates
  rw [hopen] at hspec
  obtain ⟨hshows, hcoherent, hlatest⟩ := hspec
  have hdev : ∃ device, (image P namespaces).device = some device := by
    obtain ⟨r, hr⟩ := Option.ne_none_iff_exists'.mp hdevice
    obtain ⟨payload, device, rfl, -, hdec⟩ := h.device r hr
    exact ⟨device, storedDevice_of_lookup device_length_le hr hdec⟩
  obtain ⟨device, hdev⟩ := hdev
  have hreset : (image P namespaces).resetPending = false := by simp [image, hpending]
  rw [Image.booted_of_device hreset hdev] at hshows hcoherent hlatest
  have hheld : Held P w (image P namespaces) mirrors.latestSyncKeyId true
      (⟨mirrors, flash, true⟩ : NvsStore Device SyncKey) := ⟨hshows, hcoherent, rfl, rfl⟩
  exact (hheld.lookups hcalls).answersFrom h hlatest.toLatestOk

/-- **A partition this store has written can be reopened.**  Whatever calls were made and wherever
the power was lost, an attempt to open the partition returns no error and succeeds unless the power
goes again; and if it succeeds, with no reset pending and a device present, every lookup from then
on returns the record the partition held. -/
theorem reachable_reopens {machine : Machine Device SyncKey} (h : Reachable P machine) :
    (∀ fates, Weather.cuts.Allows fates → ∀ e,
      (openPartition P machine.namespaces fates).1 ≠ .error e) ∧
    (∀ fates, (∀ fate ∈ fates, fate = .done) → ∃ mirrors flash,
      openPartition P machine.namespaces fates = (.ok mirrors, flash)) ∧
    ∀ fates, Weather.cuts.Allows fates → ∀ mirrors flash,
      openPartition P machine.namespaces fates = (.ok mirrors, flash) →
      (machine.namespaces .control).lookup "reset" = none →
      (machine.namespaces .device).lookup "current" ≠ none →
      ∀ calls : List ((α : Type) × Call Device SyncKey α),
        (∀ c ∈ calls, c.2.isLookup = true) →
        AnswersFrom P machine.namespaces (afterCalls P calls ⟨mirrors, flash, true⟩) := by
  have hdurable := h.machineOk.durableOk
  refine ⟨?_, fun _ => open_ok_of_done hdurable, ?_⟩
  · intro fates hfates e herror
    have hopen := openPartition_spec hdurable hfates
    rw [herror] at hopen
    exact hopen.1
  · intro fates hfates mirrors flash hopen hpending hdevice calls hcalls
    exact open_answersFrom hdurable hfates hpending hdevice hopen hcalls

/-! ### A linked board -/

/-- Byte strings as their own serialization. -/
def Codec.raw : Codec Bytes := ⟨.ok, .ok, fun _ _ h => by rw [h]⟩

/-- A board whose device and sync keys are byte strings. -/
def board (hasPsram : Bool) (sha256 : Bytes → Bytes) : Platform Bytes Bytes where
  hasPsram := hasPsram
  recordName := recordNameOf sha256
  recordName_noNul := recordNameOf_noNul sha256
  iterOrder := id
  iterOrder_perm := fun l => List.Perm.refl l
  device := Codec.raw
  syncKey := Codec.raw
  timestamp := fun key => key.length
  errorText
    | .io _ => "I/O error"
    | .validation message | .serialization message | .other message => message

/-- The SHA-256 digest of `alice`. -/
def aliceDigest : Bytes :=
  [43, 216, 6, 201, 127, 14, 0, 175, 26, 31, 195, 50, 143, 167, 99, 169, 38, 151, 35, 200, 219, 143,
    172, 79, 147, 175, 113, 219, 24, 109, 110, 144]

/-- A board without PSRAM that names one key as the firmware would. -/
def aliceBoard : Platform Bytes Bytes := board false fun _ => aliceDigest

/-- The SHA-256 digests of two addresses, a sender key and some ids. -/
def friendsDigests : List (Bytes × Bytes) :=
  [(asBytes "alice", aliceDigest),
    (asBytes "bob",
      [129, 182, 55, 216, 252, 210, 198, 218, 99, 89, 230, 150, 49, 19, 161, 23, 13, 231, 149, 228,
        183, 37, 184, 77, 30, 11, 76, 253, 158, 197, 140, 233]),
    (asBytes "group::alice",
      [123, 147, 172, 193, 12, 79, 152, 64, 43, 15, 194, 255, 73, 169, 36, 39, 236, 216, 93, 96, 19,
        143, 180, 126, 112, 143, 55, 254, 175, 227, 145, 119]),
    (u32ToLeBytes 2,
      [38, 178, 93, 69, 117, 151, 167, 176, 70, 63, 150, 32, 246, 102, 221, 16, 170, 44, 67, 115,
        165, 5, 150, 124, 124, 141, 112, 146, 42, 45, 110, 206]),
    (u32ToLeBytes 3,
      [157, 159, 41, 5, 39, 166, 190, 98, 106, 143, 89, 133, 178, 110, 25, 178, 55, 180, 72, 114,
        176, 54, 49, 129, 29, 244, 65, 111, 193, 113, 49, 120]),
    (u32ToLeBytes 7,
      [232, 97, 63, 90, 91, 201, 249, 254, 237, 163, 42, 142, 124, 128, 182, 157, 212, 135, 142, 71,
        182, 169, 23, 35, 251, 21, 235, 132, 35, 107, 106, 43])]

/-- A board without PSRAM that names these keys as the firmware would. -/
def friendsBoard : Platform Bytes Bytes :=
  board false fun key => (friendsDigests.lookup key).getD []

/-- The key of `alice`. -/
def aliceKey : IdentityKey := ⟨List.replicate 32 7, rfl⟩

/-- The board was booted and linked, and then stored an identity. -/
def linkedStore : NvsStore Bytes Bytes :=
  afterCalls aliceBoard [⟨_, .save [1]⟩, ⟨_, .putIdentity "alice" aliceKey⟩]
    (NvsStore.fresh aliceBoard)

theorem reachable_linkedStore : Reachable aliceBoard (.on linkedStore) := by
  have hnil : Weather.cuts.Allows [] := fun _ h => by cases h
  have hboot : Reachable aliceBoard (.on (NvsStore.fresh aliceBoard)) :=
    Relation.ReflTransGen.refl.tail (.boot emptyPartition [] hnil)
  have hsave : Reachable aliceBoard (.on (afterCalls aliceBoard [⟨_, .save [1]⟩]
      (NvsStore.fresh aliceBoard))) :=
    hboot.tail (Machine.Step.call (NvsStore.fresh aliceBoard) (.save [1]) rfl [] hnil)
  exact hsave.tail (Machine.Step.call (afterCalls aliceBoard [⟨_, .save [1]⟩]
    (NvsStore.fresh aliceBoard)) (.putIdentity "alice" aliceKey) rfl [] hnil)

theorem linkedStore_reopens :
    Reachable aliceBoard (.on linkedStore) ∧ ∃ mirrors flash,
      openPartition aliceBoard linkedStore.flash.namespaces [] = (.ok mirrors, flash) ∧
      AnswersFrom aliceBoard linkedStore.flash.namespaces ⟨mirrors, flash, true⟩ := by
  refine ⟨reachable_linkedStore, ?_⟩
  obtain ⟨-, hok, hanswers⟩ := reachable_reopens reachable_linkedStore
  obtain ⟨mirrors, flash, hopen⟩ := hok [] (by simp)
  exact ⟨mirrors, flash, hopen, hanswers [] (fun _ h => by cases h) mirrors flash hopen
    (by decide +kernel) (by decide +kernel) [] (by simp)⟩

end WhatsappEsp32
