import Mathlib.Data.List.Dedup
import Mathlib.Tactic

/-!
# Keys by last use

A log of uses, the oldest first, and the lists of keys that follow it: each key once, in the order
of its last use in the log (`List.dedup` keeps last occurrences).

* `dedup_concat`: a use moves its key to the end;
* `Follows`: a list that follows a log, with what keeps it;
* `Follows.eq_filter`: such a list is the log's, restricted to the keys it has;
* `foldl_erase_filter`: dropping keys from the front, except some.
-/

namespace Recency

variable {K : Type} [DecidableEq K] {order order' uses : List K}

theorem dedup_concat (uses : List K) (k : K) :
    (uses ++ [k]).dedup = uses.dedup.erase k ++ [k] := by
  induction uses with
  | nil => simp
  | cons a uses ih =>
    rw [List.cons_append, List.dedup_cons, List.dedup_cons, ih]
    by_cases hmem : a ∈ uses
    · rw [if_pos hmem, if_pos (List.mem_append_left _ hmem)]
    · rw [if_neg hmem]
      by_cases hk : a = k
      · subst hk
        rw [if_pos (by simp), List.erase_cons_head,
          List.erase_of_not_mem (mt List.mem_dedup.mp hmem)]
      · rw [if_neg (by simp [hmem, hk]), List.erase_cons_tail (by simpa using hk),
          List.cons_append]

/-- Each key of `order` was used, and they come in the order of their last uses. -/
def Follows (order uses : List K) : Prop := order.Sublist uses.dedup

namespace Follows

theorem nil (uses : List K) : Follows [] uses := List.nil_sublist _

theorem nodup (h : Follows order uses) : order.Nodup := (List.nodup_dedup uses).sublist h

theorem sublist (h : Follows order uses) (hsub : order'.Sublist order) : Follows order' uses :=
  hsub.trans h

/-- The key that is used goes to the end. -/
theorem use (h : Follows order uses) (k : K) : Follows (order.erase k ++ [k]) (uses ++ [k]) := by
  unfold Follows
  rw [dedup_concat]
  exact (List.Sublist.erase k h).append_right [k]

/-- What came before a log that is followed does not matter. -/
theorem append_left (h : Follows order uses) (before : List K) :
    Follows order (before ++ uses) := by
  refine h.trans ?_
  rw [List.dedup_append]
  exact (List.suffix_union_right before uses.dedup).sublist

theorem eq_filter (h : Follows order uses) : order = uses.dedup.filter (· ∈ order) := by
  have hsub : order.Sublist (uses.dedup.filter (· ∈ order)) := by
    have hfilter := List.Sublist.filter (· ∈ order) h
    rwa [List.filter_eq_self.mpr (by simp)] at hfilter
  refine hsub.eq_of_length_le ?_
  have hnodup : (uses.dedup.filter (· ∈ order)).Nodup := (List.nodup_dedup uses).filter _
  refine (hnodup.subperm fun k hk => ?_).length_le
  simpa using (List.mem_filter.mp hk).2

end Follows

/-- Dropping, one after the other, the keys of `front` that satisfy `p`. -/
theorem foldl_erase_filter (p : K → Bool) (front rest : List K) :
    (front.filter p).foldl List.erase (front ++ rest) = front.filter (fun k => !p k) ++ rest := by
  -- The keys that stay pile up in front of the ones still to be dropped.
  have hpile : ∀ kept : List K, (∀ k ∈ kept, p k = false) →
      (front.filter p).foldl List.erase (kept ++ (front ++ rest)) =
        kept ++ (front.filter (fun k => !p k) ++ rest) := by
    induction front with
    | nil => exact fun kept _ => rfl
    | cons k front ih =>
      intro kept hkept
      cases hk : p k with
      | true =>
        have hmem : k ∉ kept := fun hmem => by simp [hkept k hmem] at hk
        rw [List.filter_cons_of_pos hk, List.foldl_cons, List.erase_append_right _ hmem,
          List.cons_append, List.erase_cons_head, ih kept hkept,
          List.filter_cons_of_neg (by simp [hk])]
      | false =>
        have hkept' : ∀ k' ∈ kept ++ [k], p k' = false := by
          intro k' hk'
          rcases List.mem_append.mp hk' with hk' | hk'
          · exact hkept k' hk'
          · rw [List.mem_singleton.mp hk', hk]
        have hih := ih (kept ++ [k]) hkept'
        rw [List.filter_cons_of_neg (by simp [hk]), List.filter_cons_of_pos (by simp [hk])]
        simpa using hih
  exact hpile [] (by simp)

end Recency
