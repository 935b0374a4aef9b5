import Mathlib.Order.Bounds.Basic
import Mathlib.Data.List.Induction
import Mathlib.Tactic

/-!
# The newest of a list of stamped values

A register that keeps the newest value it was given; of two equally new ones it keeps the later.

* `update`, `newest`: the register, and what it holds after a list of writes;
* `newest_eq_some_iff`: it holds the last value of those with the greatest stamp;
* `newest_congr`: only the order of equally new values matters.
-/

namespace Newest

variable {α τ : Type} [LinearOrder τ] {es es' : List (α × τ)} {e : α × τ}

/-- What is held gives way to what comes in, unless that is older. -/
def update (held : Option (α × τ)) (e : α × τ) : Option (α × τ) :=
  match held with
  | some current => if e.2 < current.2 then some current else some e
  | none => some e

/-- What a register holds after the writes `es`. -/
def newest (es : List (α × τ)) : Option (α × τ) := es.foldl update none

@[simp] theorem newest_concat (es : List (α × τ)) (e : α × τ) :
    newest (es ++ [e]) = update (newest es) e := by
  simp [newest]

/-- A register that holds something is one that was written first. -/
theorem foldl_update (held : Option (α × τ)) (es : List (α × τ)) :
    es.foldl update held = newest (held.toList ++ es) := by
  cases held <;> simp [newest, update]

/-- The last of the values with the greatest stamp. -/
structure IsNewest (es : List (α × τ)) (e : α × τ) : Prop where
  greatest : IsGreatest {t | ∃ a, (a, t) ∈ es} e.2
  last : (es.filter fun x => x.2 = e.2).getLast? = some e

theorem IsNewest.mem (h : IsNewest es e) : e ∈ es :=
  (List.mem_filter.mp (List.mem_of_getLast? h.last)).1

theorem IsNewest.unique {e' : α × τ} (h : IsNewest es e) (h' : IsNewest es e') : e = e' := by
  have hlast := h.last
  rw [h.greatest.unique h'.greatest, h'.last] at hlast
  exact (Option.some.inj hlast).symm

/-- An older write changes nothing. -/
theorem IsNewest.concat_older {x : α × τ} (h : IsNewest es e) (hx : x.2 < e.2) :
    IsNewest (es ++ [x]) e := by
  refine ⟨⟨⟨e.1, List.mem_append_left _ h.mem⟩, ?_⟩, ?_⟩
  · rintro t ⟨a, hmem⟩
    rcases List.mem_append.mp hmem with hmem | hmem
    · exact h.greatest.2 ⟨a, hmem⟩
    · obtain rfl : (a, t) = x := by simpa using hmem
      exact hx.le
  · simpa [List.filter_append, hx.ne] using h.last

/-- A write that is no older than all before it is the newest. -/
theorem isNewest_concat {x : α × τ} (h : ∀ a t, (a, t) ∈ es → t ≤ x.2) :
    IsNewest (es ++ [x]) x := by
  refine ⟨⟨⟨x.1, by simp⟩, ?_⟩, by simp [List.filter_append]⟩
  rintro t ⟨a, hmem⟩
  rcases List.mem_append.mp hmem with hmem | hmem
  · exact h a t hmem
  · obtain rfl : (a, t) = x := by simpa using hmem
    exact le_rfl

theorem update_ne_none (held : Option (α × τ)) (e : α × τ) : update held e ≠ none := by
  cases held with
  | none => simp [update]
  | some current =>
    rw [update]
    split_ifs <;> simp

/-- A register that holds nothing was never written. -/
theorem newest_eq_none_iff : newest es = none ↔ es = [] := by
  constructor
  · intro h
    cases es using List.reverseRecOn with
    | nil => rfl
    | append_singleton es x =>
      rw [newest_concat] at h
      exact absurd h (update_ne_none _ _)
  · rintro rfl
    rfl

theorem isNewest_of_newest (h : newest es = some e) : IsNewest es e := by
  induction es using List.reverseRecOn generalizing e with
  | nil => cases h
  | append_singleton es x ih =>
    rw [newest_concat] at h
    cases hheld : newest es with
    | none =>
      rw [hheld] at h
      obtain rfl : x = e := Option.some.inj h
      obtain rfl := newest_eq_none_iff.mp hheld
      exact isNewest_concat nofun
    | some current =>
      have hcurrent := ih hheld
      rw [hheld, update] at h
      split_ifs at h with hold
      · obtain rfl : current = e := Option.some.inj h
        exact hcurrent.concat_older hold
      · obtain rfl : x = e := Option.some.inj h
        exact isNewest_concat fun a t hmem =>
          (hcurrent.greatest.2 ⟨a, hmem⟩).trans (not_lt.mp hold)

theorem newest_eq_some_iff : newest es = some e ↔ IsNewest es e := by
  constructor
  · exact isNewest_of_newest
  · intro h
    cases he : newest es with
    | none =>
      rw [newest_eq_none_iff.mp he] at h
      exact absurd h.mem List.not_mem_nil
    | some e' => rw [(isNewest_of_newest he).unique h]

/-- Two lists that agree on the values of each stamp have the same newest value. -/
theorem newest_congr (h : ∀ t, (es.filter fun x => x.2 = t) = es'.filter fun x => x.2 = t) :
    newest es = newest es' := by
  have hmem : ∀ x, x ∈ es ↔ x ∈ es' := by
    intro x
    have hx := congrArg (x ∈ ·) (h x.2)
    simpa using hx
  ext e
  rw [newest_eq_some_iff, newest_eq_some_iff]
  constructor
  · rintro ⟨hgreatest, hlast⟩
    exact ⟨by simpa only [hmem] using hgreatest, by rw [← h]; exact hlast⟩
  · rintro ⟨hgreatest, hlast⟩
    exact ⟨by simpa only [hmem] using hgreatest, by rw [h]; exact hlast⟩

end Newest
