import Mathlib.Data.List.Induction

/-!
# Histories

What each entry of a log must meet, given the entries before it.

* `Always P log`: every entry `e` of the log meets `P pre e`, where `pre` is what came before it;
* `Since P Q log`: some entry is a `P`, and all after it are `Q`s;
* `concat_eq_append_cons`, `always_append_singleton`, `since_append_singleton`: a log that grows at
  its end;
* `logged`: calls on a state, each with its answer, and `always_logged`, the rule for what every
  answer meets.
-/

namespace Trace

variable {α : Type} {P Q : List α → α → Prop} {log es : List α}

/-- Every entry meets `P` of the entries before it and itself. -/
def Always (P : List α → α → Prop) (log : List α) : Prop :=
  ∀ pre e post, log = pre ++ e :: post → P pre e

/-- An entry of a longer log is the last one, or was there before. -/
theorem concat_eq_append_cons {l before after : List α} {x y : α} :
    l ++ [y] = before ++ x :: after ↔
      (after = [] ∧ l = before ∧ y = x) ∨ ∃ rest, after = rest ++ [y] ∧ l = before ++ x :: rest := by
  constructor
  · intro h
    rcases List.eq_nil_or_concat after with rfl | ⟨rest, z, rfl⟩
    · exact .inl ⟨rfl, List.append_inj_left' h rfl, by simpa using List.append_inj_right' h rfl⟩
    · rw [List.concat_eq_append] at h ⊢
      rw [← List.cons_append, ← List.append_assoc] at h
      have hz : y = z := by simpa using List.append_inj_right' h rfl
      subst hz
      exact .inr ⟨rest, rfl, List.append_inj_left' h rfl⟩
  · rintro (⟨rfl, rfl, rfl⟩ | ⟨rest, rfl, rfl⟩)
    · rfl
    · simp

theorem always_nil : Always P [] := by
  intro pre e post h
  simp at h

/-- What was always so holds of an earlier log. -/
theorem Always.of_append (h : Always P (log ++ es)) : Always P log := by
  intro pre e post heq
  refine h pre e (post ++ es) ?_
  rw [heq, List.append_assoc, List.cons_append]

theorem always_append_singleton {e : α} : Always P (log ++ [e]) ↔ Always P log ∧ P log e := by
  constructor
  · exact fun h => ⟨h.of_append, h log e [] rfl⟩
  · rintro ⟨h, he⟩ pre e' post heq
    induction post using List.reverseRecOn with
    | nil =>
      obtain ⟨rfl, hlast⟩ := List.append_inj' heq rfl
      rw [← List.head_eq_of_cons_eq hlast]
      exact he
    | append_singleton post x _ =>
      rw [← List.cons_append, ← List.append_assoc] at heq
      exact h pre e' post (List.append_inj' heq rfl).1

/-- What may happen at any time. -/
theorem Always.append (h : Always P log) (hes : ∀ e ∈ es, ∀ past, P past e) :
    Always P (log ++ es) := by
  induction es using List.reverseRecOn with
  | nil =>
    rw [List.append_nil]
    exact h
  | append_singleton es e ih =>
    rw [← List.append_assoc, always_append_singleton]
    refine ⟨ih fun e he => hes e (List.mem_append_left _ he), hes e ?_ _⟩
    exact List.mem_append_right _ (List.mem_singleton.mpr rfl)

theorem always_iff_get : Always P log ↔ ∀ i : Fin log.length, P (log.take i) (log.get i) := by
  constructor
  · intro h i
    refine h (log.take i) (log.get i) (log.drop (i + 1)) ?_
    rw [List.get_eq_getElem, ← List.drop_eq_getElem_cons, List.take_append_drop]
  · rintro h pre e post rfl
    have hi := h ⟨pre.length, by simp⟩
    simpa using hi

instance [∀ pre e, Decidable (P pre e)] : Decidable (Always P log) :=
  decidable_of_iff _ always_iff_get.symm

/-! ### The last entry of a kind -/

section Since

variable {P Q : α → Prop}

/-- Some entry meets `P`, and every entry after it meets `Q`. -/
def Since (P Q : α → Prop) (log : List α) : Prop :=
  ∃ before e after, log = before ++ e :: after ∧ P e ∧ ∀ e' ∈ after, Q e'

theorem not_since_nil : ¬Since P Q [] := by
  rintro ⟨before, e, after, heq, -⟩
  simp at heq

theorem since_append_singleton {e : α} : Since P Q (log ++ [e]) ↔ P e ∨ Since P Q log ∧ Q e := by
  constructor
  · rintro ⟨before, e', after, heq, he', hafter⟩
    rcases concat_eq_append_cons.mp heq with ⟨-, -, rfl⟩ | ⟨rest, rfl, hlog⟩
    · exact .inl he'
    · refine .inr ⟨⟨before, e', rest, hlog, he', fun x hx => ?_⟩, hafter e (by simp)⟩
      exact hafter x (List.mem_append_left _ hx)
  · rintro (he | ⟨⟨before, e', after, rfl, he', hafter⟩, he⟩)
    · exact ⟨log, e, [], rfl, he, by simp⟩
    · refine ⟨before, e', after ++ [e], by simp, he', fun x hx => ?_⟩
      rcases List.mem_append.mp hx with hx | hx
      · exact hafter x hx
      · rw [List.mem_singleton.mp hx]
        exact he

theorem Since.exists_mem (h : Since P Q log) : ∃ e ∈ log, P e := by
  obtain ⟨before, e, after, rfl, he, -⟩ := h
  exact ⟨e, by simp, he⟩

end Since

/-! ### Logs of calls -/

section Logged

variable {σ ι ρ : Type} {exec : σ → ι → ρ × σ} {s : σ}

/-- Calls from a state on, each with its answer, and the state after them. -/
def logged (exec : σ → ι → ρ × σ) (s : σ) (calls : List ι) : List (ι × ρ) × σ :=
  calls.foldl (fun (log, s) call => (log ++ [(call, (exec s call).1)], (exec s call).2)) ([], s)

theorem logged_concat (calls : List ι) (call : ι) :
    logged exec s (calls ++ [call]) =
      ((logged exec s calls).1 ++ [(call, (exec (logged exec s calls).2 call).1)],
        (exec (logged exec s calls).2 call).2) := by
  rw [logged, List.foldl_append]
  rfl

theorem map_fst_logged (calls : List ι) : (logged exec s calls).1.map Prod.fst = calls := by
  induction calls using List.reverseRecOn with
  | nil => rfl
  | append_singleton calls call ih =>
    rw [logged_concat, List.map_append, ih]
    rfl

/-- If the next answer meets `P` after any calls, then every answer does. -/
theorem always_logged {P : List (ι × ρ) → ι × ρ → Prop}
    (h : ∀ calls call, P (logged exec s calls).1 (call, (exec (logged exec s calls).2 call).1))
    (calls : List ι) : Always P (logged exec s calls).1 := by
  induction calls using List.reverseRecOn with
  | nil => exact always_nil
  | append_singleton calls call ih =>
    rw [logged_concat]
    exact always_append_singleton.mpr ⟨ih, h calls call⟩

end Logged

end Trace
