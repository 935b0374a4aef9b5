import WhatsappEsp32.Lib.Dict

/-!
# Sender-key devices

Which devices of a group hold our sender key, a table of the store that is kept in memory only.  A
row is found by a scan of the group's list, and one batch may name a device more than once.

* `SenderKeyCall`: the writes, each of which holds the store's lock to its end;
* `acts`: the same writes, row by row, and `lastSaid`: what they last say about a device;
* `devices_last_said`: after any calls a group lists a device exactly if the last of them to say
  anything about it sets it, with that status; it lists it once, behind those that were there
  before it.
-/

namespace WhatsappEsp32

/-- `StoreInner::sender_key_devices`. -/
abbrev SenderKeyDevices := Dict String (List (String × Bool))

namespace SenderKeyDevices

/-- The first row of the device gets the status; without one, a new row is pushed. -/
def upsert (devices : List (String × Bool)) (jid : String) (status : Bool) : List (String × Bool) :=
  match devices with
  | [] => [(jid, status)]
  | entry :: devices =>
    if entry.1 = jid then (entry.1, status) :: devices else entry :: upsert devices jid status

/-- `get_sender_key_devices`. -/
def getSenderKeyDevices (s : SenderKeyDevices) (groupJid : String) : List (String × Bool) :=
  (s.lookup groupJid).getD []

/-- `set_sender_key_status`. -/
def setSenderKeyStatus (s : SenderKeyDevices) (groupJid : String) (entries : List (String × Bool)) :
    SenderKeyDevices :=
  let devices := (s.lookup groupJid).getD []
  s.insert groupJid (entries.foldl (fun devices entry => upsert devices entry.1 entry.2) devices)

/-- `clear_sender_key_devices`. -/
def clearSenderKeyDevices (s : SenderKeyDevices) (groupJid : String) : SenderKeyDevices :=
  s.erase groupJid

/-- `clear_all_sender_key_devices`. -/
def clearAllSenderKeyDevices (_ : SenderKeyDevices) : SenderKeyDevices := ∅

/-- The rows of some devices, in every group. -/
def deleteSenderKeyDeviceRows (s : SenderKeyDevices) (deviceJids : List String) : SenderKeyDevices :=
  s.mapValues fun devices => devices.filter fun entry => !deviceJids.contains entry.1

end SenderKeyDevices

open SenderKeyDevices

/-- The calls that change the table. -/
inductive SenderKeyCall
  | set (groupJid : String) (entries : List (String × Bool))
  | clear (groupJid : String)
  | clearAll
  | deleteRows (deviceJids : List String)
  deriving DecidableEq

/-- The table after one call. -/
def SenderKeyCall.run (s : SenderKeyDevices) : SenderKeyCall → SenderKeyDevices
  | .set groupJid entries => s.setSenderKeyStatus groupJid entries
  | .clear groupJid => s.clearSenderKeyDevices groupJid
  | .clearAll => s.clearAllSenderKeyDevices
  | .deleteRows deviceJids => s.deleteSenderKeyDeviceRows deviceJids

/-- The table after some calls on the empty one, which is what a store opens with. -/
def runSenderKeyCalls (calls : List SenderKeyCall) : SenderKeyDevices :=
  calls.foldl SenderKeyCall.run ∅

/-! ### What the calls say about a device -/

/-- A call, or one entry of a batch. -/
inductive SenderKeyAct
  | set (groupJid jid : String) (status : Bool)
  | clear (groupJid : String)
  | clearAll
  | deleteRows (deviceJids : List String)
  deriving DecidableEq

/-- A call as single statements about devices. -/
def SenderKeyCall.acts : SenderKeyCall → List SenderKeyAct
  | .set groupJid entries => entries.map fun entry => .set groupJid entry.1 entry.2
  | .clear groupJid => [.clear groupJid]
  | .clearAll => [.clearAll]
  | .deleteRows deviceJids => [.deleteRows deviceJids]

namespace SenderKeyAct

/-- A status for the device, `some none` to forget it, or nothing. -/
def said (groupJid jid : String) : SenderKeyAct → Option (Option Bool)
  | .set g j status => if g = groupJid ∧ j = jid then some (some status) else none
  | .clear g => if g = groupJid then some none else none
  | .clearAll => some none
  | .deleteRows deviceJids => if jid ∈ deviceJids then some none else none

/-- The effect on the list that a group shows. -/
def apply (groupJid : String) (devices : List (String × Bool)) : SenderKeyAct → List (String × Bool)
  | .set g jid status => if g = groupJid then upsert devices jid status else devices
  | .clear g => if g = groupJid then [] else devices
  | .clearAll => []
  | .deleteRows deviceJids => devices.filter fun entry => !deviceJids.contains entry.1

end SenderKeyAct

open SenderKeyAct

/-- What was last said of a device of the group. -/
def lastSaid (groupJid jid : String) (acts : List SenderKeyAct) : Option Bool :=
  (acts.filterMap (said groupJid jid)).getLast?.join

/-- At some time the one device was listed and the other was not, and it has been listed ever
since. -/
def Earlier (acts : List SenderKeyAct) (groupJid jid jid' : String) : Prop :=
  ∃ before after, acts = before ++ after ∧ lastSaid groupJid jid before ≠ none ∧
    lastSaid groupJid jid' before = none ∧ ∀ act ∈ after, said groupJid jid act ≠ some none

/-- What a group lists is what the acts last said. -/
structure Listed (acts : List SenderKeyAct) (groupJid : String) (devices : List (String × Bool)) :
    Prop where
  nodup : (devices.map Prod.fst).Nodup
  mem : ∀ jid status, (jid, status) ∈ devices ↔ lastSaid groupJid jid acts = some status
  order : (devices.map Prod.fst).Pairwise (Earlier acts groupJid)

theorem lastSaid_concat (groupJid jid : String) (acts : List SenderKeyAct) (act : SenderKeyAct) :
    lastSaid groupJid jid (acts ++ [act]) =
      (said groupJid jid act).getD (lastSaid groupJid jid acts) := by
  rw [lastSaid, List.filterMap_append]
  cases hsaid : said groupJid jid act with
  | none => simp [hsaid, lastSaid]
  | some v => simp [hsaid]

/-! ### The rows of one group -/

theorem map_fst_upsert (devices : List (String × Bool)) (jid : String) (status : Bool) :
    (upsert devices jid status).map Prod.fst =
      if jid ∈ devices.map Prod.fst then devices.map Prod.fst
      else devices.map Prod.fst ++ [jid] := by
  induction devices with
  | nil => rfl
  | cons entry devices ih =>
    rw [upsert]
    by_cases h : entry.1 = jid
    · simp [h]
    · rw [if_neg h, List.map_cons, ih, List.map_cons]
      by_cases hmem : jid ∈ devices.map Prod.fst
      · rw [if_pos hmem, if_pos (List.mem_cons_of_mem _ hmem)]
      · rw [if_neg hmem, if_neg (by simpa [Ne.symm h] using hmem), List.cons_append]

theorem mem_upsert {devices : List (String × Bool)} (hnodup : (devices.map Prod.fst).Nodup)
    (jid : String) (status : Bool) (j : String) (b : Bool) :
    (j, b) ∈ upsert devices jid status ↔ if j = jid then b = status else (j, b) ∈ devices := by
  induction devices with
  | nil => by_cases h : j = jid <;> simp [upsert, h]
  | cons entry devices ih =>
    rw [List.map_cons, List.nodup_cons] at hnodup
    have ih := ih hnodup.2
    rw [upsert]
    by_cases h : entry.1 = jid
    · subst h
      rw [if_pos rfl, List.mem_cons]
      by_cases hj : j = entry.1
      · -- the row that was found is the only one of the device
        subst hj
        have hnot : (entry.1, b) ∉ devices := fun hmem =>
          hnodup.1 (List.mem_map.mpr ⟨_, hmem, rfl⟩)
        simp [hnot]
      · have hne : (j, b) ≠ entry := fun heq => hj (congrArg Prod.fst heq)
        simp [hj, hne]
    · rw [if_neg h, List.mem_cons, ih, List.mem_cons]
      by_cases hj : j = jid
      · subst hj
        have hne : (j, b) ≠ entry := fun heq => h (congrArg Prod.fst heq).symm
        simp [hne]
      · simp [hj]

/-! ### One act -/

theorem Earlier.concat {acts : List SenderKeyAct} {act : SenderKeyAct} {groupJid jid jid' : String}
    (h : Earlier acts groupJid jid jid') (hkept : said groupJid jid act ≠ some none) :
    Earlier (acts ++ [act]) groupJid jid jid' := by
  obtain ⟨before, after, rfl, hjid, hjid', hafter⟩ := h
  refine ⟨before, after ++ [act], List.append_assoc _ _ _, hjid, hjid', ?_⟩
  intro x hx
  rcases List.mem_append.mp hx with hx | hx
  · exact hafter x hx
  · exact List.mem_singleton.mp hx ▸ hkept

section Step

variable {acts : List SenderKeyAct} {groupJid : String} {devices : List (String × Bool)}

theorem Listed.mem_map (h : Listed acts groupJid devices) (jid : String) :
    jid ∈ devices.map Prod.fst ↔ lastSaid groupJid jid acts ≠ none := by
  rw [List.mem_map, Option.ne_none_iff_exists']
  constructor
  · rintro ⟨⟨_, status⟩, hmem, rfl⟩
    exact ⟨status, (h.mem _ status).mp hmem⟩
  · rintro ⟨status, hlast⟩
    exact ⟨(jid, status), (h.mem jid status).mpr hlast, rfl⟩

/-- The rows that stay keep their order. -/
theorem Listed.order_concat (h : Listed acts groupJid devices) (act : SenderKeyAct)
    {jids : List String} (hsub : jids.Sublist (devices.map Prod.fst))
    (hkept : ∀ jid ∈ jids, said groupJid jid act ≠ some none) :
    jids.Pairwise (Earlier (acts ++ [act]) groupJid) :=
  (h.order.sublist hsub).imp_of_mem fun hjid _ hearlier => hearlier.concat (hkept _ hjid)

/-- An act that is about another group. -/
theorem Listed.silent (h : Listed acts groupJid devices) {act : SenderKeyAct}
    (hsilent : ∀ jid, said groupJid jid act = none) : Listed (acts ++ [act]) groupJid devices where
  nodup := h.nodup
  mem jid status := by
    rw [lastSaid_concat, hsilent, Option.getD_none]
    exact h.mem jid status
  order := h.order_concat act (List.Sublist.refl _) fun jid _ => by
    rw [hsilent]
    exact (Option.some_ne_none _).symm

/-- An act that forgets the whole group. -/
theorem Listed.forget (acts : List SenderKeyAct) {act : SenderKeyAct}
    (hforget : ∀ jid, said groupJid jid act = some none) : Listed (acts ++ [act]) groupJid [] where
  nodup := List.nodup_nil
  mem jid status := by
    rw [lastSaid_concat, hforget, Option.getD_some]
    simp
  order := List.Pairwise.nil

theorem said_set (groupJid j jid : String) (status : Bool) :
    said groupJid j (.set groupJid jid status) = if jid = j then some (some status) else none := by
  simp [said]

theorem said_set_ne (groupJid j jid : String) (status : Bool) :
    said groupJid j (.set groupJid jid status) ≠ some none := by
  rw [said_set]
  split_ifs <;> simp

theorem Listed.upsert (h : Listed acts groupJid devices) (jid : String) (status : Bool) :
    Listed (acts ++ [.set groupJid jid status]) groupJid
      (SenderKeyDevices.upsert devices jid status) where
  nodup := by
    rw [map_fst_upsert]
    split_ifs with hmem
    · exact h.nodup
    · exact h.nodup.append (List.nodup_singleton jid) (by simpa using hmem)
  mem j b := by
    rw [mem_upsert h.nodup, lastSaid_concat, said_set]
    by_cases hj : j = jid
    · simp [hj, eq_comm]
    · rw [if_neg hj, if_neg (Ne.symm hj), Option.getD_none]
      exact h.mem j b
  order := by
    have hold := h.order_concat (.set groupJid jid status) (List.Sublist.refl _)
      fun j _ => said_set_ne groupJid j jid status
    rw [map_fst_upsert]
    split_ifs with hmem
    · exact hold
    · rw [List.pairwise_append]
      refine ⟨hold, List.pairwise_singleton _ _, fun j hj j' hj' => ?_⟩
      -- the new row comes after all those that are there now
      obtain rfl := List.mem_singleton.mp hj'
      refine ⟨acts, [.set groupJid j' status], rfl, (h.mem_map j).mp hj, ?_, ?_⟩
      · rwa [h.mem_map, not_not] at hmem
      · intro act hact
        rw [List.mem_singleton.mp hact]
        exact said_set_ne groupJid j j' status

theorem Listed.deleteRows (h : Listed acts groupJid devices) (deviceJids : List String) :
    Listed (acts ++ [.deleteRows deviceJids]) groupJid
      (devices.filter fun entry => !deviceJids.contains entry.1) where
  nodup := h.nodup.sublist (List.filter_sublist.map Prod.fst)
  mem jid status := by
    rw [lastSaid_concat, said, List.mem_filter, h.mem]
    by_cases hmem : jid ∈ deviceJids <;> simp [hmem]
  order := by
    refine h.order_concat _ (List.filter_sublist.map Prod.fst) fun jid hjid => ?_
    obtain ⟨entry, hentry, rfl⟩ := List.mem_map.mp hjid
    have hnot : entry.1 ∉ deviceJids := by simpa using (List.mem_filter.mp hentry).2
    simp [said, hnot]

theorem Listed.step (h : Listed acts groupJid devices) (act : SenderKeyAct) :
    Listed (acts ++ [act]) groupJid (act.apply groupJid devices) := by
  cases act with
  | set g jid status =>
    rw [SenderKeyAct.apply]
    split_ifs with hg
    · subst hg
      exact h.upsert jid status
    · exact h.silent fun j => by simp [said, hg]
  | clear g =>
    rw [SenderKeyAct.apply]
    split_ifs with hg
    · exact Listed.forget acts fun j => by simp [said, hg]
    · exact h.silent fun j => by simp [said, hg]
  | clearAll => exact Listed.forget acts fun j => rfl
  | deleteRows deviceJids => exact h.deleteRows deviceJids

theorem Listed.steps (h : Listed acts groupJid devices) (more : List SenderKeyAct) :
    Listed (acts ++ more) groupJid (more.foldl (SenderKeyAct.apply groupJid) devices) := by
  induction more generalizing acts devices with
  | nil => simpa using h
  | cons act more ih => simpa using ih (h.step act)

end Step

/-! ### Whole runs -/

theorem foldl_set_other {g groupJid : String} (hg : g ≠ groupJid) (entries : List (String × Bool))
    (devices : List (String × Bool)) :
    (SenderKeyCall.set g entries).acts.foldl (SenderKeyAct.apply groupJid) devices = devices := by
  induction entries with
  | nil => rfl
  | cons entry entries ih => simpa [SenderKeyCall.acts, SenderKeyAct.apply, hg] using ih

/-- A call does to a group's list what its acts do. -/
theorem getSenderKeyDevices_run (s : SenderKeyDevices) (call : SenderKeyCall) (groupJid : String) :
    (call.run s).getSenderKeyDevices groupJid =
      call.acts.foldl (SenderKeyAct.apply groupJid) (s.getSenderKeyDevices groupJid) := by
  cases call with
  | set g entries =>
    rw [SenderKeyCall.run, getSenderKeyDevices, setSenderKeyStatus, AList.lookup_insert_eq]
    split_ifs with hg
    · subst hg
      rw [Option.getD_some, SenderKeyCall.acts, List.foldl_map]
      simp [SenderKeyAct.apply, getSenderKeyDevices]
    · rw [foldl_set_other (Ne.symm hg)]
      rfl
  | clear g =>
    rw [SenderKeyCall.run, getSenderKeyDevices, clearSenderKeyDevices, AList.lookup_erase_eq]
    by_cases hg : groupJid = g
    · simp [SenderKeyCall.acts, SenderKeyAct.apply, hg]
    · simp [SenderKeyCall.acts, SenderKeyAct.apply, hg, Ne.symm hg, getSenderKeyDevices]
  | clearAll => rfl
  | deleteRows deviceJids =>
    rw [SenderKeyCall.run, getSenderKeyDevices, deleteSenderKeyDeviceRows, AList.lookup_mapValues]
    cases hrow : s.lookup groupJid <;>
      simp [SenderKeyCall.acts, SenderKeyAct.apply, getSenderKeyDevices, hrow]

/-- **A group lists a device exactly if it was last set**, with the status it was last given, once,
and behind the devices that were there before it: after any calls, whatever their batches repeat. -/
theorem devices_last_said (calls : List SenderKeyCall) (groupJid : String) :
    Listed (calls.flatMap SenderKeyCall.acts) groupJid
      ((runSenderKeyCalls calls).getSenderKeyDevices groupJid) := by
  induction calls using List.reverseRecOn with
  | nil =>
    refine ⟨List.nodup_nil, fun jid status => ?_, List.Pairwise.nil⟩
    simp [runSenderKeyCalls, getSenderKeyDevices, lastSaid]
  | append_singleton calls call ih =>
    rw [runSenderKeyCalls, List.foldl_concat, ← runSenderKeyCalls, getSenderKeyDevices_run,
      List.flatMap_append, List.flatMap_singleton]
    exact ih.steps call.acts

/-- A device that is deleted and set again comes last. -/
example :
    (runSenderKeyCalls [.set "g" [("a", true), ("b", false), ("a", false)], .set "h" [("a", true)],
      .deleteRows ["a"], .set "g" [("a", true)]]).getSenderKeyDevices "g" =
        [("b", false), ("a", true)] := by decide

end WhatsappEsp32
