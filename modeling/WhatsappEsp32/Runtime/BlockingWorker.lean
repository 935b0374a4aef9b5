import Mathlib.Algebra.Order.BigOperators.Group.List
import Mathlib.Algebra.Order.Ring.Nat
import Mathlib.Data.List.Nodup
import Mathlib.Logic.Function.Basic
import Mathlib.Logic.Relation
import WhatsappEsp32.Lib.Trace

/-!
# The blocking worker

`spawn_blocking` hands a closure to the one `wa-blocking` thread: `BlockingWorker::execute` sends a
job over a queue of one and then awaits the completion of the job.  A future may be dropped at any
point; the worker does not start a job whose future is gone, but a closure that runs cannot be
stopped.

* `System`, `System.Step`: the futures, the queue and the worker, with a log of what happened;
* `Allowed`: what each entry of the log must meet; `jobs_in_order`: it does, in every run, and the
  shared state is what the finished closures have made of it, one after the other;
* `execute_returns`: no awaited `execute` hangs.
-/

namespace WhatsappEsp32

open Trace

namespace BlockingWorker

/-- Where the future of `execute` is. -/
inductive Future
  /-- Not created yet. -/
  | absent
  /-- In `jobs.send(..).await`. -/
  | sending
  /-- In `completed.recv().await`. -/
  | waiting
  /-- The completion is in the channel. -/
  | completed
  | returned
  | dropped
  deriving DecidableEq

/-- Where the worker's loop is. -/
inductive Stage
  /-- In `receiver.recv_blocking()`. -/
  | idle
  /-- Before `job.done.is_closed()`. -/
  | taken (k : ℕ)
  | running (k : ℕ)
  /-- Before `job.done.send_blocking(())`. -/
  | done (k : ℕ)

/-- What the callers, the channel and the worker do with closure `k`. -/
inductive Event
  | call (k : ℕ)
  | queued (k : ℕ)
  | drop (k : ℕ)
  /-- The worker has found the future gone. -/
  | skip (k : ℕ)
  | start (k : ℕ)
  | finish (k : ℕ)
  | ret (k : ℕ)
  deriving DecidableEq

/-- The calls of `execute`, each with a number of its own, and the worker. -/
structure System (σ : Type) where
  state : σ
  futures : ℕ → Future
  queue : List ℕ
  worker : Stage
  log : List Event

variable {σ : Type}

namespace System

/-- No closure has been given to the worker. -/
def initial (state : σ) : System σ := ⟨state, fun _ => .absent, [], .idle, []⟩

/-- The future of call `k` is dropped. -/
def drop (s : System σ) (k : ℕ) : System σ :=
  { s with futures := Function.update s.futures k .dropped, log := s.log ++ [.drop k] }

variable (jobs : ℕ → σ → σ)

/-- The futures and the worker go on.  `jobs k` is the closure of call `k`. -/
inductive Advance : System σ → System σ → Prop
  | enqueue {s : System σ} {k : ℕ} (h : s.futures k = .sending) (hroom : s.queue.length < 1) :
      Advance s { s with
        futures := Function.update s.futures k .waiting
        queue := s.queue ++ [k]
        log := s.log ++ [.queued k] }
  | take {s : System σ} {k : ℕ} {queue : List ℕ} (h : s.worker = .idle)
      (hqueue : s.queue = k :: queue) : Advance s { s with queue, worker := .taken k }
  | skip {s : System σ} {k : ℕ} (h : s.worker = .taken k) (hclosed : s.futures k = .dropped) :
      Advance s { s with worker := .idle, log := s.log ++ [.skip k] }
  | start {s : System σ} {k : ℕ} (h : s.worker = .taken k) (hopen : s.futures k ≠ .dropped) :
      Advance s { s with worker := .running k, log := s.log ++ [.start k] }
  | finish {s : System σ} {k : ℕ} (h : s.worker = .running k) :
      Advance s { s with state := jobs k s.state, worker := .done k, log := s.log ++ [.finish k] }
  /-- There is room for the completion; if the future is gone, the error is ignored. -/
  | complete {s : System σ} {k : ℕ} (h : s.worker = .done k) :
      Advance s { s with
        futures := if s.futures k = .dropped then s.futures
          else Function.update s.futures k .completed
        worker := .idle }
  | ret {s : System σ} {k : ℕ} (h : s.futures k = .completed) :
      Advance s { s with
        futures := Function.update s.futures k .returned
        log := s.log ++ [.ret k] }

/-- The steps of the callers and of the worker, one await or one receive each. -/
inductive Step : System σ → System σ → Prop
  | call {s : System σ} {k : ℕ} (h : s.futures k = .absent) :
      Step s { s with
        futures := Function.update s.futures k .sending
        log := s.log ++ [.call k] }
  /-- The future is dropped at one of its awaits. -/
  | drop {s : System σ} {k : ℕ}
      (h : s.futures k = .sending ∨ s.futures k = .waiting ∨ s.futures k = .completed) :
      Step s (s.drop k)
  | advance {s s' : System σ} (h : Advance jobs s s') : Step s s'

/-- The systems that some interleaving leads to. -/
def Reachable (init : σ) (s : System σ) : Prop :=
  Relation.ReflTransGen (Step jobs) (initial init) s

end System

/-! ### The log -/

/-- The closure that a caller comes with. -/
def Event.called? : Event → Option ℕ
  | .call k => some k
  | _ => none

/-- The closure that enters the channel. -/
def Event.queued? : Event → Option ℕ
  | .queued k => some k
  | _ => none

/-- The closure that the worker takes from the channel, to run it or not. -/
def Event.taken? : Event → Option ℕ
  | .skip k => some k
  | .start k => some k
  | _ => none

/-- The closure that has run to its end. -/
def Event.finished? : Event → Option ℕ
  | .finish k => some k
  | _ => none

/-- The calls so far. -/
def called (log : List Event) : List ℕ := log.filterMap Event.called?

/-- The jobs in the order in which they were queued. -/
def queued (log : List Event) : List ℕ := log.filterMap Event.queued?

/-- The jobs in the order in which the worker has dealt with them. -/
def taken (log : List Event) : List ℕ := log.filterMap Event.taken?

/-- The closures that have run, in their order. -/
def finished (log : List Event) : List ℕ := log.filterMap Event.finished?

/-- What an event must meet, given what happened before it: jobs are dealt with in the order in
which they were queued; the worker starts a job if its future is still there and skips it if not;
it starts no job before the last one is finished; and `execute` returns once, when its job is
finished. -/
def Allowed (past : List Event) : Event → Prop
  | .call k => .call k ∉ past
  | .queued k => .call k ∈ past ∧ .queued k ∉ past ∧ .drop k ∉ past
  | .drop k => .call k ∈ past ∧ .drop k ∉ past ∧ .ret k ∉ past
  | .skip k => .drop k ∈ past ∧ ∃ later, queued past = taken past ++ k :: later
  | .start k => .drop k ∉ past ∧ (∃ later, queued past = taken past ++ k :: later) ∧
    ∀ j, .start j ∈ past → .finish j ∈ past
  | .finish k => .start k ∈ past ∧ .finish k ∉ past
  | .ret k => .finish k ∈ past ∧ .drop k ∉ past ∧ .ret k ∉ past

section

variable {log : List Event} {k : ℕ}

theorem queued_append {e : Event} (h : e.queued? = none) : queued (log ++ [e]) = queued log := by
  simp [queued, h]

theorem taken_append {e : Event} (h : e.taken? = none) : taken (log ++ [e]) = taken log := by
  simp [taken, h]

theorem finished_append {e : Event} (h : e.finished? = none) :
    finished (log ++ [e]) = finished log := by
  simp [finished, h]

theorem queued_append_queued : queued (log ++ [.queued k]) = queued log ++ [k] := by
  simp [queued, Event.queued?]

theorem taken_append_skip : taken (log ++ [.skip k]) = taken log ++ [k] := by
  simp [taken, Event.taken?]

theorem taken_append_start : taken (log ++ [.start k]) = taken log ++ [k] := by
  simp [taken, Event.taken?]

theorem finished_append_finish : finished (log ++ [.finish k]) = finished log ++ [k] := by
  simp [finished, Event.finished?]

theorem called_append {e : Event} (h : e.called? = none) : called (log ++ [e]) = called log := by
  simp [called, h]

theorem mem_called (h : .call k ∈ log) : k ∈ called log := List.mem_filterMap.mpr ⟨_, h, rfl⟩

theorem mem_queued : k ∈ queued log ↔ .queued k ∈ log := by
  simp only [queued, List.mem_filterMap]
  constructor
  · rintro ⟨e, he, hk⟩
    cases e <;> simp_all [Event.queued?]
  · exact fun h => ⟨_, h, rfl⟩

theorem mem_taken : k ∈ taken log ↔ .skip k ∈ log ∨ .start k ∈ log := by
  simp only [taken, List.mem_filterMap]
  constructor
  · rintro ⟨e, he, hk⟩
    cases e <;> simp_all [Event.taken?]
  · rintro (h | h)
    · exact ⟨_, h, rfl⟩
    · exact ⟨_, h, rfl⟩

/-- What an entry of the log says about the log. -/
theorem exists_past (h : Always Allowed log) {e : Event} (he : e ∈ log) :
    ∃ past, past ⊆ log ∧ Allowed past e := by
  obtain ⟨past, post, rfl⟩ := List.append_of_mem he
  exact ⟨past, List.subset_append_left _ _, h past e post rfl⟩

theorem call_of_queued (h : Always Allowed log) (hk : .queued k ∈ log) : .call k ∈ log := by
  obtain ⟨past, hsub, hpast⟩ := exists_past h hk
  exact hsub hpast.1

theorem call_of_drop (h : Always Allowed log) (hk : .drop k ∈ log) : .call k ∈ log := by
  obtain ⟨past, hsub, hpast⟩ := exists_past h hk
  exact hsub hpast.1

theorem queued_of_taken (h : Always Allowed log) (hk : k ∈ taken log) : .queued k ∈ log := by
  have hqueued : ∀ past, past ⊆ log → (∃ later, queued past = taken past ++ k :: later) →
      .queued k ∈ log := by
    rintro past hsub ⟨later, heq⟩
    refine hsub (mem_queued.mp ?_)
    rw [heq]
    simp
  obtain hskip | hstart := mem_taken.mp hk
  · obtain ⟨past, hsub, hpast⟩ := exists_past h hskip
    exact hqueued past hsub hpast.2
  · obtain ⟨past, hsub, hpast⟩ := exists_past h hstart
    exact hqueued past hsub hpast.2.1

theorem start_of_finish (h : Always Allowed log) (hk : .finish k ∈ log) : .start k ∈ log := by
  obtain ⟨past, hsub, hpast⟩ := exists_past h hk
  exact hsub hpast.1

theorem finish_of_ret (h : Always Allowed log) (hk : .ret k ∈ log) : .finish k ∈ log := by
  obtain ⟨past, hsub, hpast⟩ := exists_past h hk
  exact hsub hpast.1

theorem call_of_finish (h : Always Allowed log) (hk : .finish k ∈ log) : .call k ∈ log :=
  call_of_queued h (queued_of_taken h (mem_taken.mpr (Or.inr (start_of_finish h hk))))

end

/-! ### The invariant -/

/-- What the log says about where a future is. -/
def FutureOk (log : List Event) (k : ℕ) : Future → Prop
  | .absent => .call k ∉ log
  | .sending => .call k ∈ log ∧ .queued k ∉ log ∧ .drop k ∉ log ∧ .ret k ∉ log
  | .waiting => .queued k ∈ log ∧ .drop k ∉ log ∧ .ret k ∉ log
  | .completed => .finish k ∈ log ∧ .drop k ∉ log ∧ .ret k ∉ log
  | .returned => .ret k ∈ log ∧ .drop k ∉ log
  | .dropped => .drop k ∈ log

/-- The job that the worker has taken and not looked at. -/
def Stage.unchecked : Stage → List ℕ
  | .taken k => [k]
  | _ => []

/-- The job that the worker has. -/
def Stage.held : Stage → List ℕ
  | .idle => []
  | .taken k => [k]
  | .running k => [k]
  | .done k => [k]

/-- What the log says about where the worker is. -/
def StageOk (log : List Event) : Stage → Prop
  | .running k => .start k ∈ log ∧ .finish k ∉ log ∧ ∀ j, .start j ∈ log → j ≠ k → .finish j ∈ log
  | .done k => .finish k ∈ log ∧ ∀ j, .start j ∈ log → .finish j ∈ log
  | _ => ∀ j, .start j ∈ log → .finish j ∈ log

/-- The invariant: the log is lawful, the queue holds what was queued and not yet taken, and the
state is what the finished closures make of the first one. -/
structure System.Ok (jobs : ℕ → σ → σ) (init : σ) (s : System σ) : Prop where
  allowed : Always Allowed s.log
  order : queued s.log = taken s.log ++ (s.worker.unchecked ++ s.queue)
  nodup : (queued s.log).Nodup
  room : s.queue.length ≤ 1
  state : s.state = (finished s.log).foldl (fun state k => jobs k state) init
  futures : ∀ k, FutureOk s.log k (s.futures k)
  worker : StageOk s.log s.worker
  waiting : ∀ k, s.futures k = .waiting → k ∈ s.worker.held ++ s.queue
  pending : ∀ k ∈ s.worker.held ++ s.queue, s.futures k = .waiting ∨ s.futures k = .dropped

/-- The futures that an event is not about. -/
theorem FutureOk.append {log : List Event} {k : ℕ} {future : Future} {e : Event}
    (h : FutureOk log k future) (hcall : e ≠ .call k) (hqueued : e ≠ .queued k)
    (hdrop : e ≠ .drop k) (hret : e ≠ .ret k) : FutureOk (log ++ [e]) k future := by
  cases future <;> simp_all [FutureOk, eq_comm]

theorem FutureOk.update {log : List Event} {futures : ℕ → Future} {future : Future} {k : ℕ}
    (h : ∀ j, j ≠ k → FutureOk log j (futures j)) (hk : FutureOk log k future) (j : ℕ) :
    FutureOk log j (Function.update futures k future j) := by
  by_cases hj : j = k
  · subst hj
    rw [Function.update_self]
    exact hk
  · rw [Function.update_of_ne hj]
    exact h j hj

theorem StageOk.append {log : List Event} {stage : Stage} {e : Event} (h : StageOk log stage)
    (hstart : ∀ j, e ≠ .start j) (hfinish : ∀ j, e ≠ .finish j) : StageOk (log ++ [e]) stage := by
  have hs : ∀ j, .start j ∈ log ++ [e] ↔ .start j ∈ log := fun j => by
    simp [(hstart j).symm]
  have hf : ∀ j, .finish j ∈ log ++ [e] ↔ .finish j ∈ log := fun j => by
    simp [(hfinish j).symm]
  cases stage <;> simpa only [StageOk, hs, hf] using h

namespace System.Ok

variable {jobs : ℕ → σ → σ} {init : σ} {s s' : System σ} {k : ℕ}

theorem of_initial : Ok jobs init (initial init) where
  allowed := always_nil
  order := rfl
  nodup := List.nodup_nil
  room := Nat.zero_le 1
  state := rfl
  futures _ := List.not_mem_nil
  worker _ h := absurd h List.not_mem_nil
  waiting k h := by cases h
  pending _ h := absurd h List.not_mem_nil

/-- The job of a call that waits is on its way. -/
theorem update_waiting (h : Ok jobs init s) {future : Future} (hfuture : future ≠ .waiting)
    (j : ℕ) (hj : Function.update s.futures k future j = .waiting) :
    j ∈ s.worker.held ++ s.queue := by
  by_cases hjk : j = k
  · subst hjk
    rw [Function.update_self] at hj
    exact absurd hj hfuture
  · rw [Function.update_of_ne hjk] at hj
    exact h.waiting j hj

theorem update_pending (h : Ok jobs init s) {future : Future}
    (hk : k ∈ s.worker.held ++ s.queue → future = .waiting ∨ future = .dropped) (j : ℕ)
    (hj : j ∈ s.worker.held ++ s.queue) :
    Function.update s.futures k future j = .waiting ∨
      Function.update s.futures k future j = .dropped := by
  by_cases hjk : j = k
  · subst hjk
    rw [Function.update_self]
    exact hk hj
  · rw [Function.update_of_ne hjk]
    exact h.pending j hj

/-- The job of a call that neither waits nor was dropped is nowhere. -/
theorem notMem_pending (h : Ok jobs init s) (hwaiting : s.futures k ≠ .waiting)
    (hdropped : s.futures k ≠ .dropped) : k ∉ s.worker.held ++ s.queue := by
  intro hmem
  obtain hk | hk := h.pending k hmem
  · exact hwaiting hk
  · exact hdropped hk

/-- An event that is none of the queue's or the worker's. -/
theorem log_append (h : Ok jobs init s) {e : Event} (hallowed : Allowed s.log e)
    (hqueued : e.queued? = none) (htaken : e.taken? = none) (hfinished : e.finished? = none)
    {futures : ℕ → Future} (hfutures : ∀ k, FutureOk (s.log ++ [e]) k (futures k))
    (hwaiting : ∀ k, futures k = .waiting → k ∈ s.worker.held ++ s.queue)
    (hpending : ∀ k ∈ s.worker.held ++ s.queue, futures k = .waiting ∨ futures k = .dropped) :
    Ok jobs init { s with futures, log := s.log ++ [e] } where
  allowed := always_append_singleton.mpr ⟨h.allowed, hallowed⟩
  order := by
    rw [queued_append hqueued, taken_append htaken]
    exact h.order
  nodup := by
    rw [queued_append hqueued]
    exact h.nodup
  room := h.room
  state := by
    rw [finished_append hfinished]
    exact h.state
  futures := hfutures
  worker := by
    apply h.worker.append
    · rintro j rfl
      cases htaken
    · rintro j rfl
      cases hfinished
  waiting := hwaiting
  pending := hpending

theorem call (h : Ok jobs init s) (hk : s.futures k = .absent) :
    Ok jobs init { s with
      futures := Function.update s.futures k .sending
      log := s.log ++ [.call k] } := by
  have hnew : .call k ∉ s.log := by simpa [FutureOk, hk] using h.futures k
  have hqueued : .queued k ∉ s.log := fun hmem => hnew (call_of_queued h.allowed hmem)
  have hdrop : .drop k ∉ s.log := fun hmem => hnew (call_of_drop h.allowed hmem)
  have hret : .ret k ∉ s.log := fun hmem =>
    hnew (call_of_finish h.allowed (finish_of_ret h.allowed hmem))
  have hnowhere := h.notMem_pending (k := k) (by simp [hk]) (by simp [hk])
  refine h.log_append (show Allowed s.log (.call k) from hnew) rfl rfl rfl
    (FutureOk.update (fun j hj => ?_) ?_) (h.update_waiting (by decide))
    (h.update_pending fun hmem => absurd hmem hnowhere)
  · exact (h.futures j).append (by simp [hj.symm]) (by simp) (by simp) (by simp)
  · simp [FutureOk, hqueued, hdrop, hret]

theorem drop (h : Ok jobs init s)
    (hk : s.futures k = .sending ∨ s.futures k = .waiting ∨ s.futures k = .completed) :
    Ok jobs init (s.drop k) := by
  have hfuture := h.futures k
  have hallowed : Allowed s.log (.drop k) := by
    obtain hk | hk | hk := hk
    · rw [hk] at hfuture
      exact ⟨hfuture.1, hfuture.2.2⟩
    · rw [hk] at hfuture
      exact ⟨call_of_queued h.allowed hfuture.1, hfuture.2⟩
    · rw [hk] at hfuture
      exact ⟨call_of_finish h.allowed hfuture.1, hfuture.2⟩
  refine h.log_append hallowed rfl rfl rfl (FutureOk.update (fun j hj => ?_) ?_)
    (h.update_waiting (by decide)) (h.update_pending fun _ => Or.inr rfl)
  · exact (h.futures j).append (by simp) (by simp) (by simp [hj.symm]) (by simp)
  · simp [FutureOk]

theorem ret (h : Ok jobs init s) (hk : s.futures k = .completed) :
    Ok jobs init { s with
      futures := Function.update s.futures k .returned
      log := s.log ++ [.ret k] } := by
  have hfuture := h.futures k
  rw [hk] at hfuture
  have hnowhere := h.notMem_pending (k := k) (by simp [hk]) (by simp [hk])
  refine h.log_append (show Allowed s.log (.ret k) from hfuture) rfl rfl rfl
    (FutureOk.update (fun j hj => ?_) ?_) (h.update_waiting (by decide))
    (h.update_pending fun hmem => absurd hmem hnowhere)
  · exact (h.futures j).append (by simp) (by simp) (by simp) (by simp [hj.symm])
  · simp [FutureOk, hfuture.2.1]

theorem enqueue (h : Ok jobs init s) (hk : s.futures k = .sending) (hroom : s.queue.length < 1) :
    Ok jobs init { s with
      futures := Function.update s.futures k .waiting
      queue := s.queue ++ [k]
      log := s.log ++ [.queued k] } := by
  have hfuture := h.futures k
  rw [hk] at hfuture
  obtain ⟨hcall, hqueued, hdrop, hret⟩ := hfuture
  refine ⟨always_append_singleton.mpr ⟨h.allowed, hcall, hqueued, hdrop⟩, ?_, ?_, ?_, ?_,
    FutureOk.update (fun j hj => ?_) ?_, h.worker.append (by simp) (by simp), fun j hj => ?_,
    fun j hj => ?_⟩
  · rw [queued_append_queued, taken_append rfl, h.order]
    simp
  · rw [queued_append_queued]
    refine (List.perm_append_singleton k _).nodup_iff.mpr (List.nodup_cons.mpr ⟨?_, h.nodup⟩)
    exact fun hj => hqueued (mem_queued.mp hj)
  · simpa using hroom
  · rw [finished_append rfl]
    exact h.state
  · exact (h.futures j).append (by simp) (by simp [hj.symm]) (by simp) (by simp)
  · simp [FutureOk, hdrop, hret]
  · by_cases hjk : j = k
    · simp [hjk]
    · have hj' : s.futures j = .waiting := by simpa [hjk] using hj
      have hmem := h.waiting j hj'
      simp only [List.mem_append] at hmem ⊢
      tauto
  · by_cases hjk : j = k
    · simp [hjk]
    · have hj' : j ∈ s.worker.held ++ s.queue := by simpa [hjk] using hj
      simpa [hjk] using h.pending j hj'

theorem take (h : Ok jobs init s) {queue : List ℕ} (hidle : s.worker = .idle)
    (hqueue : s.queue = k :: queue) : Ok jobs init { s with queue, worker := .taken k } := by
  have horder := h.order
  have hroom := h.room
  have hworker := h.worker
  rw [hidle, hqueue] at horder
  rw [hqueue, List.length_cons] at hroom
  rw [hidle] at hworker
  refine ⟨h.allowed, horder, h.nodup, by show queue.length ≤ 1; omega, h.state, h.futures, hworker,
    fun j hj => ?_, fun j hj => h.pending j ?_⟩
  · have hmem := h.waiting j hj
    rw [hidle, hqueue] at hmem
    exact hmem
  · rw [hidle, hqueue]
    exact hj

/-- The job that the worker looks at is the next one. -/
theorem next (h : Ok jobs init s) (htaken : s.worker = .taken k) :
    queued s.log = taken s.log ++ k :: s.queue := by
  have horder := h.order
  rw [htaken] at horder
  exact horder

theorem skip (h : Ok jobs init s) (htaken : s.worker = .taken k)
    (hclosed : s.futures k = .dropped) :
    Ok jobs init { s with worker := .idle, log := s.log ++ [.skip k] } := by
  have hfuture := h.futures k
  have hworker := h.worker
  rw [hclosed] at hfuture
  rw [htaken] at hworker
  refine ⟨always_append_singleton.mpr ⟨h.allowed, hfuture, s.queue, h.next htaken⟩, ?_, ?_, h.room,
    ?_, fun j => (h.futures j).append (by simp) (by simp) (by simp) (by simp), ?_, fun j hj => ?_,
    fun j hj => h.pending j (List.mem_append_right _ hj)⟩
  · rw [queued_append rfl, taken_append_skip, h.next htaken]
    simp [Stage.unchecked]
  · rw [queued_append rfl]
    exact h.nodup
  · rw [finished_append rfl]
    exact h.state
  · exact (show StageOk s.log .idle from hworker).append (by simp) (by simp)
  · have hmem := h.waiting j hj
    rw [htaken] at hmem
    simp only [Stage.held, List.singleton_append, List.mem_cons] at hmem
    obtain rfl | hmem := hmem
    · rw [show s.futures j = _ from hj] at hclosed
      cases hclosed
    · exact hmem

theorem start (h : Ok jobs init s) (htaken : s.worker = .taken k) (hopen : s.futures k ≠ .dropped) :
    Ok jobs init { s with worker := .running k, log := s.log ++ [.start k] } := by
  have hworker := h.worker
  rw [htaken] at hworker
  have hfuture := h.futures k
  rw [(h.pending k (by rw [htaken]; exact List.mem_cons_self)).resolve_right hopen] at hfuture
  obtain ⟨-, hdrop, -⟩ := hfuture
  -- it is queued once, so it was not dealt with before
  have hfresh : k ∉ taken s.log := by
    have hnodup := h.nodup
    rw [h.next htaken] at hnodup
    intro hmem
    exact List.disjoint_of_nodup_append hnodup hmem List.mem_cons_self
  have hfinish : .finish k ∉ s.log := fun hmem =>
    hfresh (mem_taken.mpr (Or.inr (start_of_finish h.allowed hmem)))
  refine ⟨always_append_singleton.mpr ⟨h.allowed, hdrop, ⟨s.queue, h.next htaken⟩, hworker⟩,
    ?_, ?_, h.room, ?_, fun j => (h.futures j).append (by simp) (by simp) (by simp) (by simp), ?_,
    fun j hj => ?_, fun j hj => h.pending j ?_⟩
  · rw [queued_append rfl, taken_append_start, h.next htaken]
    simp [Stage.unchecked]
  · rw [queued_append rfl]
    exact h.nodup
  · rw [finished_append rfl]
    exact h.state
  · refine ⟨by simp, by simpa using hfinish, fun j hj hjk => ?_⟩
    have hj' : .start j ∈ s.log := by simpa [hjk] using hj
    exact List.mem_append_left _ (hworker j hj')
  · have hmem := h.waiting j hj
    rw [htaken] at hmem
    exact hmem
  · rw [htaken]
    exact hj

theorem finish (h : Ok jobs init s) (hrunning : s.worker = .running k) :
    Ok jobs init
      { s with state := jobs k s.state, worker := .done k, log := s.log ++ [.finish k] } := by
  have hworker := h.worker
  have horder := h.order
  rw [hrunning] at hworker horder
  obtain ⟨hstart, hfinish, hothers⟩ := hworker
  refine ⟨always_append_singleton.mpr ⟨h.allowed, hstart, hfinish⟩, ?_, ?_, h.room, ?_,
    fun j => (h.futures j).append (by simp) (by simp) (by simp) (by simp), ?_, fun j hj => ?_,
    fun j hj => h.pending j ?_⟩
  · rw [queued_append rfl, taken_append rfl]
    exact horder
  · rw [queued_append rfl]
    exact h.nodup
  · rw [finished_append_finish, List.foldl_append, ← h.state]
    rfl
  · refine ⟨by simp, fun j hj => ?_⟩
    have hj' : .start j ∈ s.log := by simpa using hj
    by_cases hjk : j = k
    · simp [hjk]
    · exact List.mem_append_left _ (hothers j hj' hjk)
  · have hmem := h.waiting j hj
    rw [hrunning] at hmem
    exact hmem
  · rw [hrunning]
    exact hj

/-- The job that the worker has is no longer queued. -/
theorem held_notMem_queue (h : Ok jobs init s) (hk : k ∈ s.worker.held) : k ∉ s.queue := by
  have hnodup := h.nodup
  have hworker := h.worker
  rw [h.order] at hnodup
  have htaken : k ∈ taken s.log ++ s.worker.unchecked := by
    cases hstage : s.worker with
    | idle =>
      rw [hstage] at hk
      exact absurd hk List.not_mem_nil
    | taken j =>
      rw [hstage] at hk
      exact List.mem_append_right _ hk
    | running j =>
      rw [hstage] at hk hworker
      obtain rfl := List.mem_singleton.mp hk
      exact List.mem_append_left _ (mem_taken.mpr (Or.inr hworker.1))
    | done j =>
      rw [hstage] at hk hworker
      obtain rfl := List.mem_singleton.mp hk
      exact List.mem_append_left _ (mem_taken.mpr (Or.inr (start_of_finish h.allowed hworker.1)))
  rw [← List.append_assoc] at hnodup
  exact List.disjoint_of_nodup_append hnodup htaken

theorem complete (h : Ok jobs init s) (hdone : s.worker = .done k) :
    Ok jobs init { s with
      futures := if s.futures k = .dropped then s.futures
        else Function.update s.futures k .completed
      worker := .idle } := by
  have hworker := h.worker
  have horder := h.order
  rw [hdone] at hworker horder
  obtain ⟨hfinish, hothers⟩ := hworker
  have hheld : k ∈ s.worker.held := by rw [hdone]; exact List.mem_cons_self
  have hqueue : ∀ j ∈ s.queue, j ≠ k := by
    rintro j hj rfl
    exact h.held_notMem_queue hheld hj
  have hk := h.pending k (List.mem_append_left _ hheld)
  refine ⟨h.allowed, horder, h.nodup, h.room, h.state, ?_, hothers, fun j hj => ?_, fun j hj => ?_⟩
  · split_ifs with hdropped
    · exact h.futures
    · have hfuture := h.futures k
      rw [hk.resolve_right hdropped] at hfuture
      exact FutureOk.update (fun j _ => h.futures j) ⟨hfinish, hfuture.2⟩
  -- whoever still waits is not the one that was answered
  · have hjk : j ≠ k ∧ s.futures j = .waiting := by
      simp only at hj
      split_ifs at hj with hdropped
      · refine ⟨?_, hj⟩
        rintro rfl
        rw [hdropped] at hj
        cases hj
      · by_cases hjk : j = k
        · subst hjk
          rw [Function.update_self] at hj
          cases hj
        · rw [Function.update_of_ne hjk] at hj
          exact ⟨hjk, hj⟩
    have hmem := h.waiting j hjk.2
    rw [hdone] at hmem
    simpa [Stage.held, hjk.1] using hmem
  · have hpending := h.pending j (List.mem_append_right _ hj)
    simp only
    split_ifs with hdropped
    · exact hpending
    · rw [Function.update_of_ne (hqueue j hj)]
      exact hpending

theorem advance (h : Ok jobs init s) (hstep : Advance jobs s s') : Ok jobs init s' := by
  cases hstep with
  | enqueue hk hroom => exact h.enqueue hk hroom
  | take hidle hqueue => exact h.take hidle hqueue
  | skip htaken hclosed => exact h.skip htaken hclosed
  | start htaken hopen => exact h.start htaken hopen
  | finish hrunning => exact h.finish hrunning
  | complete hdone => exact h.complete hdone
  | ret hk => exact h.ret hk

end System.Ok

theorem System.Reachable.ok {jobs : ℕ → σ → σ} {init : σ} {s : System σ}
    (h : Reachable jobs init s) : s.Ok jobs init := by
  induction h with
  | refl => exact .of_initial
  | tail _ hstep ih =>
    cases hstep with
    | call hk => exact ih.call hk
    | drop hk => exact ih.drop hk
    | advance hadvance => exact ih.advance hadvance

/-! ### Progress -/

/-- The moves that a future still has before it. -/
def Future.rank : Future → ℕ
  | .sending => 6
  | .completed => 1
  | _ => 0

/-- How many steps the worker is from the end of the job. -/
def Stage.rank (k otherwise : ℕ) : Stage → ℕ
  | .idle => otherwise
  | .taken j => if k = j then 4 else otherwise
  | .running j => if k = j then 3 else otherwise
  | .done j => if k = j then 2 else otherwise

namespace System

/-- How many steps are left for call `k`; a drop counts as one. -/
def rank (s : System σ) (k : ℕ) : ℕ :=
  2 * (if k ∈ s.queue then 5 else s.worker.rank k (s.futures k).rank) +
    if s.futures k = .dropped then 0 else 1

/-- How many steps are left for all calls. -/
def left (s : System σ) : ℕ := ((called s.log).map s.rank).sum

variable {jobs : ℕ → σ → σ} {init : σ} {s s' : System σ} {k : ℕ}

theorem left_lt (hcalled : called s'.log = called s.log) (hk : k ∈ called s.log)
    (hsame : ∀ j, j ≠ k → s'.rank j = s.rank j) (hless : s'.rank k < s.rank k) :
    s'.left < s.left := by
  rw [left, left, hcalled]
  refine List.sum_lt_sum _ _ (fun j _ => ?_) ⟨k, hk, hless⟩
  by_cases hj : j = k
  · rw [hj]
    exact hless.le
  · exact (hsame j hj).le

/-- Every job that is under way was called. -/
theorem Ok.mem_called (h : Ok jobs init s) (hk : s.futures k ≠ .absent) : k ∈ called s.log := by
  apply BlockingWorker.mem_called
  have hfuture := h.futures k
  cases hf : s.futures k <;> rw [hf] at hfuture
  case absent => exact absurd hf hk
  case sending => exact hfuture.1
  case waiting => exact call_of_queued h.allowed hfuture.1
  case completed => exact call_of_finish h.allowed hfuture.1
  case returned => exact call_of_finish h.allowed (finish_of_ret h.allowed hfuture.1)
  case dropped => exact call_of_drop h.allowed hfuture

theorem Ok.pending_called (h : Ok jobs init s) (hk : k ∈ s.worker.held ++ s.queue) :
    k ∈ called s.log := by
  apply h.mem_called
  obtain hk | hk := h.pending k hk <;> simp [hk]

theorem Stage.rank_of_notMem {stage : Stage} (h : k ∉ stage.held) (n : ℕ) : stage.rank k n = n := by
  cases stage <;> simp_all [Stage.rank, Stage.held]

/-- The rank of the other calls depends on their future, the queue and the worker alone. -/
theorem rank_congr {j : ℕ} (hqueue : j ∈ s'.queue ↔ j ∈ s.queue)
    (hworker : ∀ n, s'.worker.rank j n = s.worker.rank j n)
    (hfuture : s'.futures j = s.futures j) : s'.rank j = s.rank j := by
  simp only [rank, hqueue, hworker, hfuture]

theorem Ok.left_lt_advance (h : Ok jobs init s) (hstep : Advance jobs s s') : s'.left < s.left := by
  cases hstep with
  | @enqueue k hk hroom =>
    have hnowhere := h.notMem_pending (k := k) (by simp [hk]) (by simp [hk])
    simp only [List.mem_append, not_or] at hnowhere
    refine left_lt (called_append rfl) (h.mem_called (k := k) (by simp [hk])) (fun j hj => ?_) ?_
    · exact rank_congr (by simp [hj]) (fun _ => rfl) (Function.update_of_ne hj ..)
    · simp [rank, hk, hnowhere.2, Stage.rank_of_notMem hnowhere.1, Future.rank]
  | @take k queue hidle hqueue =>
    have hnodup := h.nodup
    rw [h.order, hqueue] at hnodup
    -- a job is queued once, so the one taken is not behind itself
    have hfresh : k ∉ queue := (List.nodup_cons.mp hnodup.of_append_right.of_append_right).1
    refine left_lt rfl (k := k) (h.pending_called (by simp [hqueue])) (fun j hj => ?_) ?_
    · exact rank_congr (by simp [hqueue, hj]) (fun n => by simp [hidle, Stage.rank, hj]) rfl
    · simp [rank, hqueue, hfresh, Stage.rank]
  | @skip k htaken hclosed =>
    have hheld : k ∈ s.worker.held := by rw [htaken]; exact List.mem_cons_self
    have hqueue := h.held_notMem_queue hheld
    refine left_lt (called_append rfl) (h.pending_called (List.mem_append_left _ hheld))
      (fun j hj => ?_) ?_
    · exact rank_congr Iff.rfl (fun n => by simp [htaken, Stage.rank, hj]) rfl
    · simp [rank, hqueue, htaken, hclosed, Stage.rank, Future.rank]
  | @start k htaken hopen =>
    have hheld : k ∈ s.worker.held := by rw [htaken]; exact List.mem_cons_self
    have hqueue := h.held_notMem_queue hheld
    refine left_lt (called_append rfl) (h.pending_called (List.mem_append_left _ hheld))
      (fun j hj => ?_) ?_
    · exact rank_congr Iff.rfl (fun n => by simp [htaken, Stage.rank, hj]) rfl
    · simp [rank, hqueue, htaken, hopen, Stage.rank]
  | @finish k hrunning =>
    have hheld : k ∈ s.worker.held := by rw [hrunning]; exact List.mem_cons_self
    have hqueue := h.held_notMem_queue hheld
    refine left_lt (called_append rfl) (h.pending_called (List.mem_append_left _ hheld))
      (fun j hj => ?_) ?_
    · exact rank_congr Iff.rfl (fun n => by simp [hrunning, Stage.rank, hj]) rfl
    · simp [rank, hqueue, hrunning, Stage.rank]
  | @complete k hdone =>
    have hheld : k ∈ s.worker.held := by rw [hdone]; exact List.mem_cons_self
    have hqueue := h.held_notMem_queue hheld
    refine left_lt rfl (h.pending_called (List.mem_append_left _ hheld)) (fun j hj => ?_) ?_
    · refine rank_congr Iff.rfl (fun n => by simp [hdone, Stage.rank, hj]) ?_
      simp only
      split_ifs
      · rfl
      · exact Function.update_of_ne hj ..
    -- nobody may be left to hear of it
    · by_cases hdropped : s.futures k = .dropped
      · simp [rank, hqueue, hdone, hdropped, Stage.rank, Future.rank]
      · simp [rank, hqueue, hdone, hdropped, Stage.rank, Future.rank]
  | @ret k hk =>
    have hnowhere := h.notMem_pending (k := k) (by simp [hk]) (by simp [hk])
    simp only [List.mem_append, not_or] at hnowhere
    refine left_lt (called_append rfl) (h.mem_called (k := k) (by simp [hk])) (fun j hj => ?_) ?_
    · exact rank_congr Iff.rfl (fun _ => rfl) (Function.update_of_ne hj ..)
    · simp [rank, hk, hnowhere.2, Stage.rank_of_notMem hnowhere.1, Future.rank]

theorem Ok.left_lt_drop (h : Ok jobs init s)
    (hk : s.futures k = .sending ∨ s.futures k = .waiting ∨ s.futures k = .completed) :
    (s.drop k).left < s.left := by
  have habsent : s.futures k ≠ .absent := by
    rintro hf
    simp [hf] at hk
  have hdropped : s.futures k ≠ .dropped := by
    rintro hf
    simp [hf] at hk
  refine left_lt (called_append rfl) (h.mem_called habsent) (fun j hj => ?_) ?_
  · exact rank_congr Iff.rfl (fun _ => rfl) (Function.update_of_ne hj ..)
  · have hrank : ∀ n, s.worker.rank k 0 ≤ s.worker.rank k n := by
      intro n
      cases hstage : s.worker with
      | idle => exact Nat.zero_le n
      | taken j => by_cases hj : k = j <;> simp [Stage.rank, hj]
      | running j => by_cases hj : k = j <;> simp [Stage.rank, hj]
      | done j => by_cases hj : k = j <;> simp [Stage.rank, hj]
    have hless := hrank (s.futures k).rank
    have hzero : Future.rank .dropped = 0 := rfl
    simp only [rank, System.drop, Function.update_self, hdropped, if_true, if_false, hzero]
    split_ifs <;> omega

/-- A future that is awaited, or a job that the worker has, can go on. -/
theorem Ok.exists_advance (h : Ok jobs init s)
    (hk : s.futures k = .sending ∨ s.futures k = .waiting ∨ s.futures k = .completed) :
    ∃ s', Advance jobs s s' := by
  by_cases hcompleted : s.futures k = .completed
  · exact ⟨_, .ret hcompleted⟩
  · cases hstage : s.worker with
    | taken j =>
      by_cases hclosed : s.futures j = .dropped
      · exact ⟨_, .skip hstage hclosed⟩
      · exact ⟨_, .start hstage hclosed⟩
    | running j => exact ⟨_, .finish hstage⟩
    | done j => exact ⟨_, .complete hstage⟩
    | idle =>
      cases hqueue : s.queue with
      | cons j queue => exact ⟨_, .take hstage hqueue⟩
      | nil =>
        obtain hk | hk | hk := hk
        · exact ⟨_, .enqueue hk (by simp [hqueue])⟩
        · -- a job whose future waits is somewhere
          have hmem := h.waiting k hk
          rw [hstage, hqueue] at hmem
          exact absurd hmem List.not_mem_nil
        · exact absurd hk hcompleted

end System

variable {jobs : ℕ → σ → σ} {init : σ} {s : System σ}

/-- **One at a time, in order, and only if still wanted**: in every run each event meets `Allowed`,
every job was queued once, the worker has dealt with the oldest of them, at most one waits, and the
shared state is what the finished closures have made of it, one after the other. -/
theorem jobs_in_order (h : System.Reachable jobs init s) :
    Always Allowed s.log ∧ (queued s.log).Nodup ∧
      queued s.log = taken s.log ++ (s.worker.unchecked ++ s.queue) ∧ s.queue.length ≤ 1 ∧
      s.state = (finished s.log).foldl (fun state k => jobs k state) init :=
  ⟨h.ok.allowed, h.ok.nodup, h.ok.order, h.ok.room, h.ok.state⟩

/-- The first call is dropped while its job is queued, the second one runs. -/
theorem dropped_job_skipped :
    ∃ s : System (List ℕ), System.Reachable (fun k state => state ++ [k]) [] s ∧ s.state = [1] ∧
      s.log = [.call 0, .queued 0, .drop 0, .skip 0, .call 1, .queued 1, .start 1, .finish 1,
        .ret 1] ∧ Always Allowed s.log := by
  have hdropped : System.Reachable (fun k state => state ++ [k]) ([] : List ℕ) _ :=
    (((((Relation.ReflTransGen.single (.call (k := 0) rfl)).tail
      (.advance (.enqueue (k := 0) rfl Nat.one_pos))).tail
      (.drop (k := 0) (Or.inr (Or.inl rfl)))).tail
      (.advance (.take rfl rfl))).tail
      (.advance (.skip rfl rfl)))
  have hran := ((((((hdropped.tail (.call (k := 1) rfl)).tail
    (.advance (.enqueue (k := 1) rfl Nat.one_pos))).tail
    (.advance (.take rfl rfl))).tail
    (.advance (.start rfl (by decide)))).tail
    (.advance (.finish rfl))).tail
    (.advance (.complete rfl))).tail
    (.advance (.ret (k := 1) rfl))
  exact ⟨_, hran, rfl, rfl, (jobs_in_order hran).1⟩

/-- **No awaited `execute` hangs**: a run without further calls is finite, and it is not over while
a future of `execute` is awaited. -/
theorem execute_returns :
    (¬∃ run : ℕ → System σ, System.Reachable jobs init (run 0) ∧
      ∀ n, System.Step jobs (run n) (run (n + 1)) ∧ called (run (n + 1)).log = called (run n).log) ∧
    ∀ (s : System σ) (k : ℕ), System.Reachable jobs init s →
      (s.futures k = .sending ∨ s.futures k = .waiting ∨ s.futures k = .completed) →
      ∃ s', System.Advance jobs s s' := by
  constructor
  · rintro ⟨run, hstart, hrun⟩
    have hreach : ∀ n, System.Reachable jobs init (run n) := by
      intro n
      induction n with
      | zero => exact hstart
      | succ n ih => exact ih.tail (hrun n).1
    have hless : ∀ n, (run (n + 1)).left < (run n).left := by
      intro n
      obtain ⟨hstep, hcalled⟩ := hrun n
      generalize run (n + 1) = s' at hstep hcalled
      cases hstep with
      | call hk => simp [called, Event.called?] at hcalled
      | drop hk => exact (hreach n).ok.left_lt_drop hk
      | advance hadvance => exact (hreach n).ok.left_lt_advance hadvance
    have hbound : ∀ n, (run n).left + n ≤ (run 0).left := by
      intro n
      induction n with
      | zero => exact le_rfl
      | succ n ih =>
        have hn := hless n
        omega
    have hn := hbound ((run 0).left + 1)
    omega
  · intro s k hs hk
    exact hs.ok.exists_advance hk

/-- One job runs, one waits in the queue, and the third call waits for room. -/
theorem full_queue_moves :
    ∃ s : System (List ℕ), System.Reachable (fun k state => state ++ [k]) [] s ∧
      s.worker = .running 0 ∧ s.queue = [1] ∧ s.futures 2 = .sending ∧
      ∃ s', System.Advance (fun k state => state ++ [k]) s s' := by
  have hrunning : System.Reachable (fun k state => state ++ [k]) ([] : List ℕ) _ :=
    (((Relation.ReflTransGen.single (.call (k := 0) rfl)).tail
      (.advance (.enqueue (k := 0) rfl Nat.one_pos))).tail
      (.advance (.take rfl rfl))).tail
      (.advance (.start rfl (by decide)))
  have hfull := ((hrunning.tail (.call (k := 1) rfl)).tail
    (.advance (.enqueue (k := 1) rfl Nat.one_pos))).tail
    (.call (k := 2) rfl)
  exact ⟨_, hfull, rfl, rfl, rfl, execute_returns.2 _ 2 hfull (Or.inl rfl)⟩

end BlockingWorker

end WhatsappEsp32
