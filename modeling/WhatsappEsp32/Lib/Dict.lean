import Mathlib.Data.List.AList
import Mathlib.Data.Set.Card
import Mathlib.Tactic

/-!
# Finite dictionaries

Hash maps and other finite maps are modelled by Mathlib's association lists without repeated
keys.  This file adds the operations those need beyond insertion and erasure: `size`, `retain`,
`mapValues`, `eraseAll` and `insertAll`, with their effect on lookups and on the number of entries
(`size_eq_ncard`, `size_sub_retain`).
-/

/-- A finite map from `K` to `V`. -/
abbrev Dict (K V : Type) := AList (fun _ : K => V)

namespace AList

variable {K V : Type}

/-- The number of entries. -/
def size (m : Dict K V) : ℕ := m.keys.length

/-- Keep the entries that satisfy `p`. -/
def retain (p : K → V → Bool) (m : Dict K V) : Dict K V where
  entries := m.entries.filter fun e => p e.1 e.2
  nodupKeys := m.nodupKeys.sublist List.filter_sublist

/-- Change every value and no key. -/
def mapValues (f : V → V) (m : Dict K V) : Dict K V where
  entries := m.entries.map fun e => ⟨e.1, f e.2⟩
  nodupKeys := by simpa [List.NodupKeys, List.keys, Function.comp_def] using m.nodupKeys

theorem size_retain_le (p : K → V → Bool) (m : Dict K V) : (m.retain p).size ≤ m.size := by
  simpa [size, AList.keys, List.keys, retain] using List.length_filter_le _ m.entries

theorem retain_false (m : Dict K V) : m.retain (fun _ _ => false) = ∅ := by
  apply AList.ext
  simp [retain]

theorem retain_true (m : Dict K V) : m.retain (fun _ _ => true) = m := by
  apply AList.ext
  simp [retain]

theorem retain_retain (p q : K → V → Bool) (m : Dict K V) :
    (m.retain p).retain q = m.retain fun k v => p k v && q k v := by
  apply AList.ext
  simp [retain, List.filter_filter, Bool.and_comm]

theorem keys_eq_nil_iff {m : Dict K V} : m.keys = [] ↔ m = ∅ := by
  constructor
  · intro h
    apply AList.ext
    simpa [AList.keys, List.keys] using h
  · rintro rfl
    rfl

variable [DecidableEq K]

/-- Erase every key of a list. -/
def eraseAll (m : Dict K V) (ks : List K) : Dict K V := ks.foldl (fun m k => m.erase k) m

/-- Insert the entries of a list, one after the other. -/
def insertAll (m : Dict K V) (es : List (K × V)) : Dict K V :=
  es.foldl (fun m e => m.insert e.1 e.2) m

theorem lookup_eq_some {m : Dict K V} {k : K} {v : V} :
    m.lookup k = some v ↔ ⟨k, v⟩ ∈ m.entries := AList.mem_lookup_iff

theorem mem_keys_iff_lookup {m : Dict K V} {k : K} : k ∈ m.keys ↔ ∃ v, m.lookup k = some v := by
  rw [← AList.mem_keys, ← AList.lookup_isSome, Option.isSome_iff_exists]

theorem lookup_retain (p : K → V → Bool) (m : Dict K V) (k : K) :
    (m.retain p).lookup k = (m.lookup k).filter (p k) := by
  ext v
  simp only [Option.filter_eq_some_iff, lookup_eq_some, retain, List.mem_filter]

/-- A list without duplicates counts the set of its elements. -/
theorem ncard_eq_length {l : List K} (h : l.Nodup) {p : K → Prop} (hmem : ∀ k, k ∈ l ↔ p k) :
    {k | p k}.ncard = l.length := by
  have hset : {k | p k} = (l.toFinset : Set K) := by
    ext k
    simp [hmem]
  rw [hset, Set.ncard_coe_finset, List.toFinset_card_of_nodup h]

/-- There is one entry for each key that is found. -/
theorem size_eq_ncard (m : Dict K V) : m.size = {k | ∃ v, m.lookup k = some v}.ncard :=
  (ncard_eq_length m.keys_nodup fun _ => mem_keys_iff_lookup).symm

/-- How many entries are not kept. -/
theorem size_sub_retain (p : K → V → Bool) (m : Dict K V) :
    m.size - (m.retain p).size = {k | ∃ v, m.lookup k = some v ∧ p k v = false}.ncard := by
  have hsplit : m.size = (m.retain p).size + (m.retain fun k v => !p k v).size := by
    simp only [size, AList.keys, List.keys, retain, List.length_map]
    exact List.length_eq_length_filter_add _
  have hdropped : (m.retain fun k v => !p k v).size =
      {k | ∃ v, m.lookup k = some v ∧ p k v = false}.ncard := by
    rw [size_eq_ncard]
    congr 1
    ext k
    simp only [Set.mem_ofPred_eq, lookup_retain, Option.filter_eq_some_iff, Bool.not_eq_true']
  omega

theorem lookup_mapValues (f : V → V) (m : Dict K V) (k : K) :
    (m.mapValues f).lookup k = (m.lookup k).map f := by
  ext v
  simp only [Option.map_eq_some_iff, lookup_eq_some, mapValues, List.mem_map]
  constructor
  · rintro ⟨⟨k', w⟩, hmem, heq⟩
    cases heq
    exact ⟨w, hmem, rfl⟩
  · rintro ⟨w, hmem, rfl⟩
    exact ⟨⟨k, w⟩, hmem, rfl⟩

theorem lookup_insert_eq (m : Dict K V) (k k' : K) (v : V) :
    (m.insert k v).lookup k' = if k' = k then some v else m.lookup k' := by
  split_ifs with h
  · subst h; exact AList.lookup_insert m
  · exact AList.lookup_insert_ne h

theorem lookup_erase_eq (m : Dict K V) (k k' : K) :
    (m.erase k).lookup k' = if k' = k then none else m.lookup k' := by
  split_ifs with h
  · subst h; exact AList.lookup_erase k' m
  · exact AList.lookup_erase_ne h

theorem lookup_eraseAll (ks : List K) (m : Dict K V) (k : K) :
    (m.eraseAll ks).lookup k = if k ∈ ks then none else m.lookup k := by
  induction ks generalizing m with
  | nil => simp [eraseAll]
  | cons a ks ih =>
    rw [eraseAll, List.foldl_cons, ← eraseAll, ih, lookup_erase_eq]
    by_cases h : k ∈ ks <;> by_cases ha : k = a <;> simp [h, ha]

theorem lookup_of_eraseAll {ks : List K} {m : Dict K V} {k : K} {v : V}
    (h : (m.eraseAll ks).lookup k = some v) : m.lookup k = some v := by
  rw [lookup_eraseAll] at h
  split_ifs at h
  exact h

/-- The last entry for a key wins. -/
theorem lookup_insertAll (es : List (K × V)) (m : Dict K V) (k : K) :
    (m.insertAll es).lookup k =
      ((es.filter fun e => e.1 = k).getLast?.map Prod.snd).or (m.lookup k) := by
  induction es using List.reverseRecOn with
  | nil => simp [insertAll]
  | append_singleton es e ih =>
    rw [insertAll, List.foldl_concat, ← insertAll, lookup_insert_eq, List.filter_append]
    by_cases h : k = e.1
    · simp [h]
    · rw [if_neg h, ih, List.filter_cons_of_neg (by simpa using Ne.symm h), List.filter_nil,
        List.append_nil]

theorem size_insert_of_mem {m : Dict K V} {k : K} (h : k ∈ m.keys) (v : V) :
    (m.insert k v).size = m.size := by
  have hpos := List.length_pos_of_mem h
  simp only [size, AList.keys_insert, List.length_cons, List.length_erase_of_mem h]
  omega

theorem size_insert_of_notMem {m : Dict K V} {k : K} (h : k ∉ m.keys) (v : V) :
    (m.insert k v).size = m.size + 1 := by
  simp [size, AList.keys_insert, List.erase_of_not_mem h]

theorem size_erase_le (m : Dict K V) (k : K) : (m.erase k).size ≤ m.size := by
  simpa [size] using List.length_erase_le

theorem erase_of_lookup_none {m : Dict K V} {k : K} (h : m.lookup k = none) : m.erase k = m := by
  apply AList.ext
  exact List.kerase_of_notMem_keys fun hmem => by
    obtain ⟨v, hv⟩ := mem_keys_iff_lookup.mp hmem
    rw [h] at hv
    cases hv

end AList
