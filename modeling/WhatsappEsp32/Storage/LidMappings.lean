import WhatsappEsp32.Lib.Dict

/-!
# The LID and phone-number indexes

Two tables of the store that are kept in memory only: the entries by their LID, and the LID that was
last put with a phone number.  A put inserts into both and removes nothing, so the second one can
name a LID that has another phone number by now.

* `putLidMapping`, `getLidMapping`, `getPnMapping`;
* `current`, `Consistent`: what the indexes should show after a list of puts;
* `consistent_iff`: they show it exactly if no phone number is left behind (`NoneLeftBehind`).
-/

namespace WhatsappEsp32

/-- An entry, with the data that the store does not read. -/
structure LidPnMappingEntry (Info : Type) where
  lid : String
  phoneNumber : String
  info : Info
  deriving DecidableEq

/-- The fields `lid_mappings` and `pn_mappings` of `StoreInner`. -/
structure LidTables (Info : Type) where
  lidMappings : Dict String (LidPnMappingEntry Info) := ∅
  pnMappings : Dict String String := ∅

variable {Info : Type}

namespace LidTables

/-- `get_lid_mapping`. -/
def getLidMapping (s : LidTables Info) (lid : String) : Option (LidPnMappingEntry Info) :=
  s.lidMappings.lookup lid

/-- `get_pn_mapping`: the phone leads to a LID, and the LID to the entry. -/
def getPnMapping (s : LidTables Info) (phone : String) : Option (LidPnMappingEntry Info) :=
  (s.pnMappings.lookup phone).bind fun lid => s.lidMappings.lookup lid

/-- `put_lid_mapping`: an older reverse entry of the LID stays. -/
def putLidMapping (s : LidTables Info) (entry : LidPnMappingEntry Info) : LidTables Info where
  pnMappings := s.pnMappings.insert entry.phoneNumber entry.lid
  lidMappings := s.lidMappings.insert entry.lid entry

/-- The indexes after a list of puts. -/
def putAll (puts : List (LidPnMappingEntry Info)) : LidTables Info := puts.foldl putLidMapping {}

end LidTables

open LidTables

/-! ### What the indexes should show -/

/-- The entry last put for a LID. -/
def lastOfLid (puts : List (LidPnMappingEntry Info)) (lid : String) :
    Option (LidPnMappingEntry Info) := (puts.filter fun e => e.lid = lid).getLast?

/-- The entry last put with a phone number. -/
def lastOfPhone (puts : List (LidPnMappingEntry Info)) (phone : String) :
    Option (LidPnMappingEntry Info) := (puts.filter fun e => e.phoneNumber = phone).getLast?

/-- The entries whose LID was not put again, in the order of the puts. -/
def current : List (LidPnMappingEntry Info) → List (LidPnMappingEntry Info)
  | [] => []
  | e :: puts => if ∃ e' ∈ puts, e'.lid = e.lid then current puts else e :: current puts

/-- The phone index shows, for a phone number, the current entry that was put last with it; the LID
index the entry last put for a LID. -/
structure Consistent (puts : List (LidPnMappingEntry Info)) (s : LidTables Info) : Prop where
  phone_eq : ∀ phone e, s.getPnMapping phone = some e → e.phoneNumber = phone
  pnMapping : ∀ phone, s.getPnMapping phone = lastOfPhone (current puts) phone
  lidMapping : ∀ lid, s.getLidMapping lid = lastOfLid puts lid

/-- When a LID is put again with another phone number, its former phone number is put again after
it. -/
def NoneLeftBehind (puts : List (LidPnMappingEntry Info)) : Prop :=
  ∀ before e after, puts = before ++ e :: after →
    (∃ e' ∈ after, e'.lid = e.lid ∧ e'.phoneNumber ≠ e.phoneNumber) →
    ∃ e' ∈ after, e'.phoneNumber = e.phoneNumber

/-! ### The last entry of a kind -/

/-- The last of the elements that satisfy `p`. -/
theorem getLast?_filter_eq_some_iff {α : Type} {p : α → Bool} {l : List α} {a : α} :
    (l.filter p).getLast? = some a ↔
      ∃ before after, l = before ++ a :: after ∧ p a ∧ ∀ x ∈ after, ¬p x := by
  rw [List.getLast?_eq_head?_reverse, ← List.filter_reverse, List.head?_filter,
    List.find?_eq_some_iff_append]
  constructor
  · rintro ⟨ha, as, bs, heq, has⟩
    refine ⟨bs.reverse, as.reverse, ?_, ha, by simpa using has⟩
    rw [List.reverse_eq_iff] at heq
    simpa using heq
  · rintro ⟨before, after, rfl, ha, hafter⟩
    exact ⟨ha, after.reverse, before.reverse, by simp, by simpa using hafter⟩

theorem getLast?_filter_append_cons {α : Type} {p : α → Bool} {a : α} {before after : List α}
    (ha : p a) (hafter : ∀ x ∈ after, ¬p x) :
    ((before ++ a :: after).filter p).getLast? = some a :=
  getLast?_filter_eq_some_iff.mpr ⟨before, after, rfl, ha, hafter⟩

variable {puts before after : List (LidPnMappingEntry Info)} {e : LidPnMappingEntry Info}

/-! ### The indexes after a run -/

theorem putAll_concat (puts : List (LidPnMappingEntry Info)) (e : LidPnMappingEntry Info) :
    putAll (puts ++ [e]) = (putAll puts).putLidMapping e := by
  simp [putAll]

theorem getLidMapping_putAll (puts : List (LidPnMappingEntry Info)) (lid : String) :
    (putAll puts).getLidMapping lid = lastOfLid puts lid := by
  induction puts using List.reverseRecOn with
  | nil => rfl
  | append_singleton puts e ih =>
    rw [putAll_concat, getLidMapping, putLidMapping, AList.lookup_insert_eq, lastOfLid,
      List.filter_append]
    by_cases h : e.lid = lid
    · simp [h]
    · rw [if_neg (Ne.symm h), List.filter_cons_of_neg (by simpa using h), List.filter_nil,
        List.append_nil]
      exact ih

theorem pnMappings_putAll (puts : List (LidPnMappingEntry Info)) (phone : String) :
    (putAll puts).pnMappings.lookup phone = (lastOfPhone puts phone).map (·.lid) := by
  induction puts using List.reverseRecOn with
  | nil => rfl
  | append_singleton puts e ih =>
    rw [putAll_concat, putLidMapping, AList.lookup_insert_eq, lastOfPhone, List.filter_append]
    by_cases h : e.phoneNumber = phone
    · simp [h]
    · rw [if_neg (Ne.symm h), List.filter_cons_of_neg (by simpa using h), List.filter_nil,
        List.append_nil]
      exact ih

/-- The phone index leads to the entry last put for the LID that was last put with the number. -/
theorem getPnMapping_putAll (puts : List (LidPnMappingEntry Info)) (phone : String) :
    (putAll puts).getPnMapping phone =
      (lastOfPhone puts phone).bind fun e => lastOfLid puts e.lid := by
  rw [getPnMapping, pnMappings_putAll, Option.bind_map]
  congr 1
  funext e
  exact getLidMapping_putAll puts e.lid

/-! ### Current entries -/

theorem mem_of_mem_current (h : e ∈ current puts) : e ∈ puts := by
  induction puts with
  | nil => exact h
  | cons x puts ih =>
    rw [current] at h
    split_ifs at h
    · exact List.mem_cons_of_mem _ (ih h)
    · rcases List.mem_cons.mp h with rfl | h
      · exact List.mem_cons_self
      · exact List.mem_cons_of_mem _ (ih h)

/-- Earlier puts leave the current entries of the later ones at the end. -/
theorem current_append (before after : List (LidPnMappingEntry Info)) :
    ∃ earlier, current (before ++ after) = earlier ++ current after := by
  induction before with
  | nil => exact ⟨[], rfl⟩
  | cons x before ih =>
    obtain ⟨earlier, heq⟩ := ih
    rw [List.cons_append, current, heq]
    split_ifs
    · exact ⟨earlier, rfl⟩
    · exact ⟨x :: earlier, rfl⟩

/-- An entry that is current and the last with its phone number is the one to show. -/
theorem lastOfPhone_current (hlid : ∀ x ∈ after, x.lid ≠ e.lid)
    (hphone : ∀ x ∈ after, x.phoneNumber ≠ e.phoneNumber) :
    lastOfPhone (current (before ++ e :: after)) e.phoneNumber = some e := by
  obtain ⟨earlier, heq⟩ := current_append before (e :: after)
  have hcurrent : current (e :: after) = e :: current after := by
    rw [current, if_neg]
    rintro ⟨x, hx, hsame⟩
    exact hlid x hx hsame
  rw [heq, hcurrent]
  refine getLast?_filter_append_cons (by simp) fun x hx => ?_
  simpa using hphone x (mem_of_mem_current hx)

/-! ### Consistency -/

/-- The last put with a phone number is the last for its LID too. -/
theorem NoneLeftBehind.lid_ne (h : NoneLeftBehind (before ++ e :: after))
    (hphone : ∀ x ∈ after, x.phoneNumber ≠ e.phoneNumber) : ∀ x ∈ after, x.lid ≠ e.lid := by
  intro x hx hlid
  obtain ⟨y, hy, heq⟩ := h before e after rfl ⟨x, hx, hlid, hphone x hx⟩
  exact hphone y hy heq

theorem NoneLeftBehind.getPnMapping_eq (h : NoneLeftBehind puts) (phone : String) :
    (putAll puts).getPnMapping phone = lastOfPhone (current puts) phone := by
  rw [getPnMapping_putAll]
  cases hlast : lastOfPhone puts phone with
  | none =>
    have hnone : ∀ x ∈ puts, x.phoneNumber ≠ phone := by
      simpa [lastOfPhone, List.filter_eq_nil_iff] using hlast
    have hcurrent : ∀ x ∈ current puts, x.phoneNumber ≠ phone := fun x hx =>
      hnone x (mem_of_mem_current hx)
    symm
    simpa [lastOfPhone, List.filter_eq_nil_iff] using hcurrent
  | some e =>
    obtain ⟨before, after, rfl, hphone, hafter⟩ := getLast?_filter_eq_some_iff.mp hlast
    obtain rfl : e.phoneNumber = phone := by simpa using hphone
    have hafter : ∀ x ∈ after, x.phoneNumber ≠ e.phoneNumber := by simpa using hafter
    have hlid := h.lid_ne hafter
    rw [lastOfPhone_current hlid hafter]
    exact getLast?_filter_append_cons (by simp) (by simpa using hlid)

/-- A phone number that is left behind leads to an entry with another one. -/
theorem getPnMapping_of_leftBehind (before : List (LidPnMappingEntry Info))
    (hphone : ∀ x ∈ after, x.phoneNumber ≠ e.phoneNumber)
    (hlid : ∃ x ∈ after, x.lid = e.lid) :
    ∃ x ∈ after, (putAll (before ++ e :: after)).getPnMapping e.phoneNumber = some x := by
  have hlast : lastOfPhone (before ++ e :: after) e.phoneNumber = some e :=
    getLast?_filter_append_cons (by simp) (by simpa using hphone)
  rw [getPnMapping_putAll, hlast, Option.bind_some, lastOfLid, List.filter_append,
    List.filter_cons_of_pos (by simp)]
  have hne : after.filter (fun x => x.lid = e.lid) ≠ [] := by
    obtain ⟨x, hx, hsame⟩ := hlid
    exact List.ne_nil_of_mem (List.mem_filter.mpr ⟨hx, by simpa using hsame⟩)
  obtain ⟨x, hx⟩ := Option.ne_none_iff_exists'.mp (mt List.getLast?_eq_none_iff.mp hne)
  refine ⟨x, (List.mem_filter.mp (List.mem_of_getLast? hx)).1, ?_⟩
  rw [List.getLast?_append, List.getLast?_cons, hx]
  rfl

/-- **The phone index and the LID index agree** after a list of puts exactly if no phone number is
left behind by it. -/
theorem consistent_iff (puts : List (LidPnMappingEntry Info)) :
    Consistent puts (putAll puts) ↔ NoneLeftBehind puts := by
  constructor
  · rintro h before e after rfl ⟨x, hx, hlid, -⟩
    by_contra hnone
    have hphone : ∀ y ∈ after, y.phoneNumber ≠ e.phoneNumber := fun y hy heq =>
      hnone ⟨y, hy, heq⟩
    obtain ⟨y, hy, hget⟩ := getPnMapping_of_leftBehind before hphone ⟨x, hx, hlid⟩
    exact hphone y hy (h.phone_eq _ _ hget)
  · intro h
    refine ⟨?_, h.getPnMapping_eq, getLidMapping_putAll puts⟩
    intro phone e hget
    rw [h.getPnMapping_eq, lastOfPhone, getLast?_filter_eq_some_iff] at hget
    obtain ⟨-, -, -, hphone, -⟩ := hget
    simpa using hphone

/-- A LID moves on to another phone number: the old number shows an entry with the new one. -/
theorem movedLid_inconsistent :
    (putAll [⟨"lid", "1", ()⟩, ⟨"lid", "2", ()⟩]).getPnMapping "1" = some ⟨"lid", "2", ()⟩ ∧
    ¬Consistent [⟨"lid", "1", ()⟩, ⟨"lid", "2", ()⟩]
      (putAll [⟨"lid", "1", ()⟩, ⟨"lid", "2", ()⟩]) := by
  have hget : (putAll [⟨"lid", "1", ()⟩, ⟨"lid", "2", ()⟩]).getPnMapping "1" =
      some ⟨"lid", "2", ()⟩ := by decide
  refine ⟨hget, fun h => ?_⟩
  have hphone : "2" = "1" := h.phone_eq _ _ hget
  exact absurd hphone (by decide)

end WhatsappEsp32
