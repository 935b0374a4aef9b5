import WhatsappEsp32.Lib.Trace
import Mathlib.Tactic

/-!
# Feeding the task watchdog

The loop of `feed_task_watchdog`.  A cycle feeds the watchdog, makes sure that there is a timer, and
waits for it.  What goes wrong is counted until a cycle in which nothing does, and counts twice when
both halves of a cycle fail; between failing cycles the thread sleeps, executor and all.

* `Outcomes`: how the calls of one cycle turn out; `cycle`, `runFeeder`;
* `recent`, `Armed`: the failures since the last clean cycle, and whether there is a timer, told
  from the cycles;
* `feeder_gives_up`: the loop ends, with the watchdog unregistered, at the first cycle that brings
  the failures to 12, and sleeps 11 times at most between two waits.
-/

namespace WhatsappEsp32

open Trace

namespace TaskWatchdog

/-- How the calls of one cycle turn out, those that are not made included. -/
structure Outcomes where
  /-- `esp_task_wdt_reset()`. -/
  feed : Bool
  /-- `EspTaskTimerService::new()`. -/
  service : Bool
  /-- `timer_async()`. -/
  timer : Bool
  /-- `after(FEED_INTERVAL).await`. -/
  wait : Bool
  deriving DecidableEq

/-- The variables of the loop. -/
structure Feeder where
  timerService : Bool
  timer : Bool
  failures : ℕ
  deriving DecidableEq

/-- How a cycle of `feed_task_watchdog` ends. -/
inductive Verdict
  /-- `continue`. -/
  | again
  /-- Sleep for `ERROR_RETRY_DELAY`. -/
  | backOff
  /-- `esp_task_wdt_delete`, and return. -/
  | giveUp
  deriving DecidableEq

/-- One cycle, as it went. -/
structure Cycle where
  outcomes : Outcomes
  /-- There was a timer to wait for. -/
  armed : Bool
  verdict : Verdict
  deriving DecidableEq

/-- `MAX_CONSECUTIVE_FAILURES`. -/
def maxConsecutiveFailures : ℕ := 12

/-- The task before its first cycle: a timer needs the service. -/
def Feeder.new (service timer : Bool) : Feeder := ⟨service, service && timer, 0⟩

/-- A missing timer is made, for which a missing service is made. -/
def Feeder.arm (f : Feeder) (o : Outcomes) : Feeder :=
  if f.timer then f
  else
    let timerService := f.timerService || o.service
    { f with timerService, timer := timerService && o.timer }

/-- One cycle of the loop, with what the hardware answered in it. -/
def cycle (f : Feeder) (o : Outcomes) : Cycle × Feeder :=
  let failures := if o.feed then f.failures else f.failures + 1
  let f := f.arm o
  let feedCycleOk := f.timer && o.wait
  let failures := if feedCycleOk then failures else failures + 1
  if feedCycleOk && o.feed then (⟨o, f.timer, .again⟩, { f with failures := 0 })
  else if failures ≥ maxConsecutiveFailures then (⟨o, f.timer, .giveUp⟩, { f with failures })
  else (⟨o, f.timer, .backOff⟩, { f with failures })

/-- The cycles of the loop, as long as there are outcomes. -/
def runFeeder (f : Feeder) : List Outcomes → List Cycle
  | [] => []
  | o :: os =>
    let (c, f') := cycle f o
    if c.verdict = .giveUp then [c] else c :: runFeeder f' os

/-! ### What the cycles say -/

namespace Cycle

/-- The wait was over in time: the executor could run its other tasks. -/
def waited (c : Cycle) : Bool := c.armed && c.outcomes.wait

/-- The cycles that set the count back: fed, and the timer waited for. -/
def clean (c : Cycle) : Bool := c.waited && c.outcomes.feed

/-- A failed feed, and a failed wait. -/
def faults (c : Cycle) : ℕ := (if c.outcomes.feed then 0 else 1) + if c.waited then 0 else 1

end Cycle

/-- The failures since the last clean cycle. -/
def recent (cycles : List Cycle) : ℕ :=
  cycles.foldl (fun n c => if c.clean then 0 else n + c.faults) 0

/-- A service has been made, at the start or in a cycle. -/
def Served (service : Bool) (os : List Outcomes) : Prop := service = true ∨ ∃ o ∈ os, o.service = true

/-- A timer has been made, of a service that there was by then. -/
def Armed (service timer : Bool) (os : List Outcomes) : Prop :=
  (service = true ∧ timer = true) ∨
    ∃ before o after, os = before ++ o :: after ∧ o.timer = true ∧ Served service (before ++ [o])

/-- What a cycle comes to, given the cycles before it. -/
structure Right (service timer : Bool) (past : List Cycle) (c : Cycle) : Prop where
  going : ∀ c' ∈ past, c'.verdict ≠ .giveUp
  armed : c.armed = true ↔ Armed service timer ((past ++ [c]).map (·.outcomes))
  again : c.verdict = .again ↔ c.clean = true
  giveUp : c.verdict = .giveUp ↔ c.clean = false ∧ maxConsecutiveFailures ≤ recent (past ++ [c])

/-- The variables of the loop after some cycles. -/
structure Keeps (service timer : Bool) (past : List Cycle) (f : Feeder) : Prop where
  going : ∀ c ∈ past, c.verdict ≠ .giveUp
  failures : f.failures = recent past
  timer_iff : f.timer = true ↔ Armed service timer (past.map (·.outcomes))
  service_iff : f.timer = false →
    (f.timerService = true ↔ Served service (past.map (·.outcomes)))

variable {service timer : Bool} {past cycles : List Cycle} {c : Cycle} {f : Feeder} {o : Outcomes}
  {os : List Outcomes}

theorem recent_concat (cycles : List Cycle) (c : Cycle) :
    recent (cycles ++ [c]) = if c.clean then 0 else recent cycles + c.faults := by
  simp [recent]

theorem served_concat : Served service (os ++ [o]) ↔ Served service os ∨ o.service = true := by
  simp [Served, or_assoc, or_and_right, exists_or]

/-- A timer that there was is kept; a new one needs a service. -/
theorem armed_concat :
    Armed service timer (os ++ [o]) ↔
      Armed service timer os ∨ (o.timer = true ∧ Served service (os ++ [o])) := by
  constructor
  · rintro (h | ⟨before, o', after, heq, htimer, hserved⟩)
    · exact Or.inl (Or.inl h)
    · rcases concat_eq_append_cons.mp heq with ⟨-, rfl, rfl⟩ | ⟨rest, -, rfl⟩
      · exact Or.inr ⟨htimer, hserved⟩
      · exact Or.inl (Or.inr ⟨before, o', rest, rfl, htimer, hserved⟩)
  · rintro ((h | ⟨before, o', after, rfl, htimer, hserved⟩) | ⟨htimer, hserved⟩)
    · exact Or.inl h
    · exact Or.inr ⟨before, o', after ++ [o], by simp, htimer, hserved⟩
    · exact Or.inr ⟨os, o, [], rfl, htimer, hserved⟩

/-- After the second step of a cycle there is a timer if one could be made. -/
theorem Keeps.arm (h : Keeps service timer past f) (o : Outcomes) :
    ((f.arm o).timer = true ↔ Armed service timer (past.map (·.outcomes) ++ [o])) ∧
    ((f.arm o).timer = false →
      ((f.arm o).timerService = true ↔ Served service (past.map (·.outcomes) ++ [o]))) := by
  rw [armed_concat, Feeder.arm]
  cases htimer : f.timer with
  | true => simp [htimer, h.timer_iff.mp htimer]
  | false =>
    have hnot : ¬Armed service timer (past.map (·.outcomes)) := fun harmed => by
      rw [h.timer_iff.mpr harmed] at htimer
      cases htimer
    have hserved : (f.timerService || o.service) = true ↔
        Served service (past.map (·.outcomes) ++ [o]) := by
      rw [Bool.or_eq_true, h.service_iff htimer, served_concat]
    refine ⟨?_, fun _ => hserved⟩
    simp only [Bool.false_eq_true, if_false, Bool.and_eq_true, hserved, hnot, false_or]
    exact and_comm

/-! ### One cycle -/

/-- What a cycle does, in terms of what it says. -/
theorem cycle_eq (f : Feeder) (o : Outcomes) :
    ∃ c, c.outcomes = o ∧ c.armed = (f.arm o).timer ∧
      c.verdict = (if c.clean then .again
        else if maxConsecutiveFailures ≤ f.failures + c.faults then .giveUp else .backOff) ∧
      cycle f o = (c, { f.arm o with failures := if c.clean then 0 else f.failures + c.faults }) := by
  refine ⟨(cycle f o).1, ?_⟩
  obtain ⟨feed, service, timer, wait⟩ := o
  cases feed <;> cases harmed : (f.arm ⟨_, service, timer, wait⟩).timer <;> cases wait <;>
    simp [cycle, Cycle.clean, Cycle.waited, Cycle.faults, harmed] <;> split_ifs <;> simp_all

/-- A cycle is right, and the loop knows how it went. -/
theorem Keeps.cycle (h : Keeps service timer past f) (o : Outcomes) :
    Right service timer past (TaskWatchdog.cycle f o).1 ∧
    ((TaskWatchdog.cycle f o).1.verdict ≠ .giveUp →
      Keeps service timer (past ++ [(TaskWatchdog.cycle f o).1]) (TaskWatchdog.cycle f o).2) := by
  obtain ⟨c, houtcomes, harmed, hverdict, heq⟩ := cycle_eq f o
  obtain ⟨htimer, hservice⟩ := h.arm o
  have hmap : (past ++ [c]).map (·.outcomes) = past.map (·.outcomes) ++ [o] := by simp [houtcomes]
  have hrecent : recent (past ++ [c]) = if c.clean then 0 else f.failures + c.faults := by
    rw [recent_concat, h.failures]
  rw [heq]
  constructor
  · refine ⟨h.going, ?_, ?_, ?_⟩
    · rw [harmed, hmap]
      exact htimer
    · rw [hverdict]
      split_ifs <;> simp_all
    · rw [hverdict, hrecent]
      split_ifs <;> simp_all
  · intro hgoing
    refine ⟨fun c' hc' => ?_, hrecent.symm, ?_, ?_⟩
    · rcases List.mem_append.mp hc' with hc' | hc'
      · exact h.going c' hc'
      · exact List.mem_singleton.mp hc' ▸ hgoing
    · rw [hmap]
      exact htimer
    · rw [hmap]
      exact hservice

/-! ### The loop -/

theorem Keeps.run (h : Keeps service timer past f) (hpast : Always (Right service timer) past)
    (os : List Outcomes) : Always (Right service timer) (past ++ runFeeder f os) := by
  induction os generalizing past f with
  | nil =>
    rw [runFeeder, List.append_nil]
    exact hpast
  | cons o os ih =>
    obtain ⟨hright, hkeeps⟩ := h.cycle o
    have hnext := always_append_singleton.mpr ⟨hpast, hright⟩
    rw [runFeeder]
    by_cases hgiveUp : (TaskWatchdog.cycle f o).1.verdict = .giveUp
    · simpa [hgiveUp] using hnext
    · have hrest := ih (hkeeps hgiveUp) hnext
      simpa [hgiveUp] using hrest

theorem keeps_new (service timer : Bool) : Keeps service timer [] (.new service timer) where
  going := by simp
  failures := rfl
  timer_iff := by simp [Feeder.new, Armed]
  service_iff _ := by simp [Feeder.new, Served]

/-- The loop goes on as long as it does not give up. -/
theorem length_runFeeder (f : Feeder) (os : List Outcomes) :
    (runFeeder f os).length = os.length ∨ ∃ c ∈ runFeeder f os, c.verdict = .giveUp := by
  induction os generalizing f with
  | nil => exact Or.inl rfl
  | cons o os ih =>
    rw [runFeeder]
    by_cases hgiveUp : (cycle f o).1.verdict = .giveUp
    · exact Or.inr ⟨_, by simp [hgiveUp], hgiveUp⟩
    · rcases ih (cycle f o).2 with hlength | ⟨c, hc, hverdict⟩
      · exact Or.inl (by simp [hgiveUp, hlength])
      · exact Or.inr ⟨c, by simp [hgiveUp, hc], hverdict⟩

theorem faults_pos (h : c.clean = false) : 1 ≤ c.faults := by
  cases hfeed : c.outcomes.feed <;> cases hwait : c.waited <;>
    simp_all [Cycle.clean, Cycle.faults]

/-- Each cycle that is not clean counts. -/
theorem add_length_le_recent (past : List Cycle) (h : ∀ c ∈ cycles, c.clean = false) :
    recent past + cycles.length ≤ recent (past ++ cycles) := by
  induction cycles using List.reverseRecOn with
  | nil => simp
  | append_singleton cycles c ih =>
    have hc : c.clean = false := h c (by simp)
    have hrest := ih fun c' hc' => h c' (List.mem_append_left _ hc')
    have hpos := faults_pos hc
    rw [← List.append_assoc, recent_concat, hc, List.length_append, List.length_singleton]
    simp only [Bool.false_eq_true, if_false]
    omega

/-- Where a list has an element, it has a last one. -/
theorem exists_last_of_countP_pos {α : Type} {p : α → Bool} {l : List α} (h : 0 < l.countP p) :
    ∃ l₁ a l₂, l = l₁ ++ a :: l₂ ∧ p a = true ∧ l₂.countP p = 0 := by
  induction l using List.reverseRecOn with
  | nil => simp at h
  | append_singleton l a ih =>
    by_cases ha : p a = true
    · exact ⟨l, a, [], rfl, ha, rfl⟩
    · have hl : 0 < l.countP p := by simpa [ha] using h
      obtain ⟨l₁, b, l₂, rfl, hb, hl₂⟩ := ih hl
      exact ⟨l₁, b, l₂ ++ [a], by simp, hb, by simp [hl₂, ha]⟩

/-- While the executor gets no turn the loop sleeps 11 times at most. -/
theorem sleeps_le (h : Always (Right service timer) cycles) {before stretch after : List Cycle}
    (heq : cycles = before ++ stretch ++ after) (hwaited : ∀ c ∈ stretch, c.waited = false) :
    stretch.countP (fun c => c.verdict = .backOff) < maxConsecutiveFailures := by
  by_cases hpos : 0 < stretch.countP fun c => c.verdict = .backOff
  · obtain ⟨l₁, c, l₂, rfl, hc, hl₂⟩ := exists_last_of_countP_pos hpos
    have hverdict : c.verdict = .backOff := by simpa using hc
    have hunclean : ∀ c' ∈ l₁ ++ [c], c'.clean = false := fun c' hc' => by
      have hmem : c' ∈ l₁ ++ c :: l₂ := by
        rw [List.append_cons]
        exact List.mem_append_left _ hc'
      simp [Cycle.clean, hwaited c' hmem]
    -- the last of the sleeps came before the failures were 12
    have hright := h (before ++ l₁) c (l₂ ++ after) (by rw [heq]; simp)
    have hlt : recent (before ++ l₁ ++ [c]) < maxConsecutiveFailures := by
      by_contra hge
      have hgiveUp := hright.giveUp.mpr ⟨hunclean c (by simp), not_lt.mp hge⟩
      rw [hverdict] at hgiveUp
      cases hgiveUp
    have hle := add_length_le_recent before hunclean
    rw [← List.append_assoc] at hle
    have hcount : (l₁ ++ c :: l₂).countP (fun c => c.verdict = .backOff) ≤ (l₁ ++ [c]).length := by
      rw [List.append_cons, List.countP_append, hl₂]
      exact List.countP_le_length
    omega
  · rw [maxConsecutiveFailures]
    omega

/-- **The feeder gives up in time and not before.**  However the calls turn out: the loop feeds the
watchdog in every cycle and goes on until the failures since the last clean cycle are 12, when it
unregisters; there is a timer as soon as one could be made; and between two waits the thread sleeps
11 times at most. -/
theorem feeder_gives_up (service timer : Bool) (os : List Outcomes) :
    Always (Right service timer) (runFeeder (.new service timer) os) ∧
    ((runFeeder (.new service timer) os).length = os.length ∨
      ∃ c ∈ runFeeder (.new service timer) os, c.verdict = .giveUp) ∧
    ∀ before stretch after, runFeeder (.new service timer) os = before ++ stretch ++ after →
      (∀ c ∈ stretch, c.waited = false) →
      stretch.countP (fun c => c.verdict = .backOff) < maxConsecutiveFailures := by
  have hright : Always (Right service timer) (runFeeder (.new service timer) os) :=
    (keeps_new service timer).run always_nil os
  exact ⟨hright, length_runFeeder _ os, fun _ _ _ => sleeps_le hright⟩

/-- Without a timer service the loop ends after 12 cycles. -/
example : (runFeeder (.new false false) (List.replicate 20 ⟨true, false, true, true⟩)).map
    (·.verdict) = List.replicate 11 .backOff ++ [.giveUp] := by decide

end TaskWatchdog

end WhatsappEsp32
