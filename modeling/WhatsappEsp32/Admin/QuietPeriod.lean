import WhatsappEsp32.Admin.DeviceStatus

/-!
# The grace period of a send

A send from the dashboard waits until the SDK has been quiet for a second, and at most five seconds.
`QuietPeriod::ready` is called again and again with the current time and whether it is quiet now; it
remembers no more than when the present silence was first seen.

* `QuietPeriod`, `ready`: one call;
* `period`, `answer`: the calls of a sequence of samples;
* `QuietSince`: the remembered time, told from the samples;
* `quietPeriod_grants`: a call grants exactly after a quiet second, or after five seconds.
-/

namespace WhatsappEsp32

/-- `QuietPeriod`: when waiting began, and since when it has been quiet. -/
structure QuietPeriod where
  started : Instant
  quietSince : Option Instant
  deriving DecidableEq

/-- `Duration::from_secs`, in nanoseconds. -/
def fromSecs (n : ℕ) : ℕ := n * 1000000000

namespace QuietPeriod

/-- `QuietPeriod::new`: no quiet sample yet. -/
def new (started : Instant) : QuietPeriod := ⟨started, none⟩

/-- Prefer one continuous quiet second, or stop deferring after five seconds.  `duration_since` is
zero for a time that has not come yet. -/
def ready (p : QuietPeriod) (now : Instant) (quiet : Bool) : Bool × QuietPeriod :=
  if now - p.started ≥ fromSecs 5 then
    (true, p)
  else if quiet then
    let since := p.quietSince.getD now
    (decide (now - since ≥ fromSecs 1), { p with quietSince := some since })
  else
    (false, { p with quietSince := none })

/-! ### Sequences of samples -/

section Samples

variable (start : Instant) (time : ℕ → Instant) (quiet : ℕ → Bool)

/-- The period before the `i`-th call. -/
def period : ℕ → QuietPeriod
  | 0 => new start
  | i + 1 => ((period i).ready (time i) (quiet i)).2

/-- What the `i`-th call returns. -/
def answer (i : ℕ) : Bool := ((period start time quiet i).ready (time i) (quiet i)).1

/-- The samples from the `j`-th to before the `i`-th are all quiet. -/
def Quiet (j i : ℕ) : Prop := ∀ k, j ≤ k → k < i → quiet k = true

/-- The time of the first sample of the silence that lasts until the `i`-th sample. -/
def QuietSince (i : ℕ) : Option Instant → Prop
  | none => ∀ j < i, ¬Quiet quiet j i
  | some t => ∃ j < i, Quiet quiet j i ∧ time j = t ∧ ∀ j' < i, Quiet quiet j' i → j ≤ j'

end Samples

variable {start : Instant} {time : ℕ → Instant} {quiet : ℕ → Bool}

/-! ### One call -/

theorem ready_started (p : QuietPeriod) (now : Instant) (q : Bool) :
    (p.ready now q).2.started = p.started := by
  unfold ready
  split_ifs <;> rfl

theorem ready_late {p : QuietPeriod} {now : Instant} (h : fromSecs 5 ≤ now - p.started) (q : Bool) :
    p.ready now q = (true, p) := if_pos h

theorem ready_quiet {p : QuietPeriod} {now : Instant} (h : now - p.started < fromSecs 5) :
    p.ready now true = (decide (now - p.quietSince.getD now ≥ fromSecs 1),
      { p with quietSince := some (p.quietSince.getD now) }) := by
  rw [ready, if_neg (not_le.mpr h), if_pos rfl]

theorem ready_busy {p : QuietPeriod} {now : Instant} (h : now - p.started < fromSecs 5) :
    p.ready now false = (false, { p with quietSince := none }) := by
  rw [ready, if_neg (not_le.mpr h), if_neg Bool.false_ne_true]

/-! ### The silence -/

theorem Quiet.succ {j i : ℕ} (h : Quiet quiet j i) (hi : quiet i = true) :
    Quiet quiet j (i + 1) := by
  intro k hjk hki
  rcases Nat.lt_succ_iff_lt_or_eq.mp hki with hlt | rfl
  · exact h k hjk hlt
  · exact hi

theorem Quiet.pred {j i : ℕ} (h : Quiet quiet j (i + 1)) : Quiet quiet j i :=
  fun k hjk hki => h k hjk (Nat.lt_succ_of_lt hki)

theorem Quiet.last {j i : ℕ} (h : Quiet quiet j (i + 1)) (hj : j ≤ i) : quiet i = true :=
  h i hj (Nat.lt_succ_self i)

/-- A busy sample ends every silence. -/
theorem QuietSince.busy {i : ℕ} (hi : quiet i = false) : QuietSince time quiet (i + 1) none := by
  intro j hj hquiet
  have hlast := hquiet.last (Nat.le_of_lt_succ hj)
  rw [hi] at hlast
  cases hlast

/-- A quiet sample continues the silence, or begins one. -/
theorem QuietSince.silent {i : ℕ} {since : Option Instant} (h : QuietSince time quiet i since)
    (hi : quiet i = true) : QuietSince time quiet (i + 1) (some (since.getD (time i))) := by
  cases since with
  | none =>
    refine ⟨i, Nat.lt_succ_self i, ?_, rfl, ?_⟩
    · intro k hik hki
      obtain rfl : k = i := by omega
      exact hi
    · intro j' hj' hquiet
      by_contra hlt
      exact h j' (not_le.mp hlt) hquiet.pred
  | some t =>
    obtain ⟨j, hj, hquiet, rfl, hfirst⟩ := h
    refine ⟨j, Nat.lt_succ_of_lt hj, hquiet.succ hi, rfl, ?_⟩
    intro j' hj' hquiet'
    rcases Nat.lt_succ_iff_lt_or_eq.mp hj' with hlt | rfl
    · exact hfirst j' hlt hquiet'.pred
    · exact hj.le

/-! ### Runs -/

theorem period_started (i : ℕ) : (period start time quiet i).started = start := by
  induction i with
  | zero => rfl
  | succ i ih => rw [period, ready_started, ih]

/-- As long as the five seconds have not passed, the period remembers the silence. -/
theorem period_quietSince {i : ℕ} (h : ∀ k < i, time k - start < fromSecs 5) :
    QuietSince time quiet i (period start time quiet i).quietSince := by
  induction i with
  | zero => exact fun j hj => absurd hj (Nat.not_lt_zero j)
  | succ i ih =>
    have hsince := ih fun k hk => h k (Nat.lt_succ_of_lt hk)
    have hearly : time i - (period start time quiet i).started < fromSecs 5 := by
      rw [period_started]
      exact h i (Nat.lt_succ_self i)
    cases hi : quiet i with
    | true =>
      rw [period, hi, ready_quiet hearly]
      exact hsince.silent hi
    | false =>
      rw [period, hi, ready_busy hearly]
      exact QuietSince.busy hi

/-- Before the deadline a call grants exactly if the present silence has lasted a second. -/
theorem answer_early (hmono : Monotone time) {i : ℕ} (h : time i - start < fromSecs 5) :
    answer start time quiet i = true ↔
      ∃ j ≤ i, Quiet quiet j (i + 1) ∧ fromSecs 1 ≤ time i - time j := by
  have hbefore : ∀ k < i, time k - start < fromSecs 5 := fun k hk =>
    (Nat.sub_le_sub_right (hmono hk.le) start).trans_lt h
  have hsince : QuietSince time quiet i (period start time quiet i).quietSince :=
    period_quietSince hbefore
  have hearly : time i - (period start time quiet i).started < fromSecs 5 := by
    rwa [period_started]
  cases hi : quiet i with
  | false =>
    rw [answer, hi, ready_busy hearly]
    constructor
    · intro hfalse
      cases hfalse
    · rintro ⟨j, hj, hquiet, -⟩
      have hbusy : QuietSince time quiet (i + 1) none := QuietSince.busy hi
      exact absurd hquiet (hbusy j (Nat.lt_succ_of_le hj))
  | true =>
    rw [answer, hi, ready_quiet hearly]
    -- the remembered sample is the first of the silence, so it is the longest ago
    obtain ⟨first, hfirst, hquiet, htime, hleast⟩ := hsince.silent hi
    rw [decide_eq_true_iff, ← htime]
    constructor
    · exact fun hlong => ⟨first, Nat.le_of_lt_succ hfirst, hquiet, hlong⟩
    · rintro ⟨j, hj, hquiet', hlong⟩
      have hle := hmono (hleast j (Nat.lt_succ_of_le hj) hquiet')
      exact hlong.trans (Nat.sub_le_sub_left hle _)

theorem answer_late {i : ℕ} (h : fromSecs 5 ≤ time i - start) :
    answer start time quiet i = true := by
  rw [answer, ready_late]
  rwa [period_started]

end QuietPeriod

open QuietPeriod

/-- A call grants exactly after one continuous quiet second or five seconds in total.  Past the five
seconds every call grants, and a busy sample restarts the quiet second but not the five. -/
theorem quietPeriod_grants {start : Instant} {time : ℕ → Instant} {quiet : ℕ → Bool}
    (hmono : Monotone time) (i : ℕ) :
    (answer start time quiet i = true ↔ fromSecs 5 ≤ time i - start ∨
      ∃ j ≤ i, Quiet quiet j (i + 1) ∧ fromSecs 1 ≤ time i - time j) ∧
    (fromSecs 5 ≤ time i - start → ∀ k ≥ i, answer start time quiet k = true) ∧
    ∀ b ≤ i, quiet b = false →
      (answer start time quiet i = true ↔ fromSecs 5 ≤ time i - start ∨
        ∃ j ≤ i, b < j ∧ Quiet quiet j (i + 1) ∧ fromSecs 1 ≤ time i - time j) := by
  have hiff : answer start time quiet i = true ↔ fromSecs 5 ≤ time i - start ∨
      ∃ j ≤ i, Quiet quiet j (i + 1) ∧ fromSecs 1 ≤ time i - time j := by
    by_cases hlate : fromSecs 5 ≤ time i - start
    · exact iff_of_true (answer_late hlate) (Or.inl hlate)
    · rw [answer_early hmono (not_le.mp hlate), or_iff_right hlate]
  refine ⟨hiff, ?_, ?_⟩
  · intro hlate k hk
    exact answer_late (hlate.trans (Nat.sub_le_sub_right (hmono hk) start))
  · intro b hb hbusy
    rw [hiff]
    refine or_congr_right (exists_congr fun j => and_congr_right fun hj => ?_)
    rw [← and_assoc]
    refine and_congr_left fun _ => (and_iff_right_of_imp fun hquiet => ?_).symm
    by_contra hle
    have hq := hquiet b (not_lt.mp hle) (Nat.lt_succ_of_le hb)
    rw [hbusy] at hq
    cases hq

/-- A sample every half second, of which the second one is busy. -/
theorem busySample_restarts :
    let time : ℕ → Instant := fun i => i * 500000000
    let quiet : ℕ → Bool := fun i => i != 1
    answer 0 time quiet 3 = false ∧ answer 0 time quiet 4 = true := by
  have hmono : Monotone fun i : ℕ => i * 500000000 := fun a b h => Nat.mul_le_mul_right _ h
  refine ⟨rfl, (quietPeriod_grants hmono 4).1.mpr (Or.inr ⟨2, by decide, ?_, by decide⟩)⟩
  intro k hk hk'
  simp only [bne_iff_ne]
  omega

end WhatsappEsp32
