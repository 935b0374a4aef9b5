import Mathlib.Order.Lattice
import Mathlib.Order.Bounds.Defs
import WhatsappEsp32.Lib.Trace
import WhatsappEsp32.Storage.Sealing

/-!
# Maintenance

Resets, session clears and reboots, asked for by the dashboard and by the supervisor.  The
coordinator keeps the highest action asked for and has one task run it; the task stops the client,
erases, and asks again before it closes the window and reboots.

* `MaintenanceAction`, `MaintenanceState` and the methods of `MaintenanceCoordinator`;
* `Task`, `Task.next`: `run_maintenance`, one call at a time;
* `System`, `System.Step`: any requests and the tasks they have started, with a log of what
  happened;
* `Allowed`: what each entry of the log must meet, and `no_request_lost`: it does.
-/

namespace WhatsappEsp32

open Trace

/-! ### The coordinator -/

/-- `MaintenanceAction`, in the order of its discriminants. -/
inductive MaintenanceAction
  | reboot
  | clearSessions
  | reset
  deriving DecidableEq, Repr

/-- `Reboot < ClearSessions < Reset`. -/
def MaintenanceAction.priority : MaintenanceAction → ℕ
  | .reboot => 0
  | .clearSessions => 1
  | .reset => 2

theorem MaintenanceAction.priority_injective : Function.Injective priority := by
  intro a b h
  cases a <;> cases b <;> first | rfl | cases h

instance : LinearOrder MaintenanceAction :=
  LinearOrder.lift' MaintenanceAction.priority MaintenanceAction.priority_injective

theorem reboot_le (action : MaintenanceAction) : .reboot ≤ action := by
  cases action <;> decide

/-- `MaintenanceRequest`: what a caller of `request` has to do. -/
inductive MaintenanceRequest
  /-- The caller runs the maintenance task. -/
  | start
  /-- A task is running and will apply the action. -/
  | queued
  /-- The reboot is under way. -/
  | rejected
  deriving DecidableEq, Repr

/-- `MaintenanceState`, the state behind the lock of the coordinator. -/
structure MaintenanceState where
  requested : Option MaintenanceAction
  running : Bool
  accepting : Bool
  deriving DecidableEq

namespace MaintenanceCoordinator

/-- Nothing is requested, and requests are accepted. -/
def new : MaintenanceState := ⟨none, false, true⟩

/-- The larger action wins; the first caller of an idle coordinator starts the task. -/
def request (state : MaintenanceState) (action : MaintenanceAction) :
    MaintenanceRequest × MaintenanceState :=
  if !state.accepting then
    (.rejected, state)
  else
    let requested := some (state.requested.elim action fun current => max current action)
    if state.running then
      (.queued, { state with requested })
    else
      (.start, { state with requested, running := true })

/-- The requested action; a reboot if there is none. -/
def requested (state : MaintenanceState) : MaintenanceAction := state.requested.getD .reboot

/-- Closes the window unless something higher than `applied` was asked for. -/
def beginReboot (state : MaintenanceState) (applied : MaintenanceAction) : Bool × MaintenanceState :=
  if state.requested.any fun requested => decide (requested > applied) then
    (false, state)
  else
    (true, { state with accepting := false })

/-- No maintenance is under way or over. -/
def isIdle (state : MaintenanceState) : Bool := state.accepting && !state.running

/-- The task that `start` asked for could not be queued: the window is open again. -/
def cancelStart (state : MaintenanceState) : MaintenanceState :=
  { state with running := false, requested := none }

end MaintenanceCoordinator

/-! ### The task -/

/-- What happens to the outside world. -/
inductive Event
  | request (action : MaintenanceAction) (answer : MaintenanceRequest)
  /-- `active_client.current()`, and whether there is a client. -/
  | current (active : Bool)
  | logout
  | shutdown
  /-- `active_client.clear_if(client)`. -/
  | clearClient
  | setLoggedOut
  | sealWrites
  /-- `store.reset()` or `store.clear_sessions()`, and whether it succeeded. -/
  | erase (erasure : Maintenance) (succeeded : Bool)
  | beginReboot (answer : Bool)
  | restart

/-- The action that an erasure applies. -/
def Maintenance.action : Maintenance → MaintenanceAction
  | .reset => .reset
  | .clearSessions => .clearSessions

/-- The variables of `run_maintenance` in its loop. -/
structure Locals where
  client : Bool
  logoutAttempted : Bool
  applied : MaintenanceAction

/-- Where `run_maintenance` is: before the call that the name says. -/
inductive Task
  | readRequested
  | readClient (initial : MaintenanceAction)
  | stopClient (initial : MaintenanceAction)
  | clearClient (logoutAttempted : Bool)
  | loop (l : Locals)
  | logout (l : Locals)
  | setLoggedOut (l : Locals)
  | sealWrites (l : Locals) (erasure : Maintenance)
  | erase (l : Locals) (erasure : Maintenance)
  | beginReboot (l : Locals)
  | restart
  | finished

open MaintenanceCoordinator

/-- The next call of `run_maintenance`.  `active` says whether there is a client now, `succeeded`
whether an erasure succeeds now. -/
def Task.next (active succeeded : Bool) (state : MaintenanceState) :
    Task → Task × MaintenanceState × List Event
  | .readRequested => (.readClient (requested state), state, [])
  | .readClient initial =>
    if active then
      (.stopClient initial, state, [.current true])
    else
      (.loop ⟨false, false, .reboot⟩, state, [.current false])
  | .stopClient .reset => (.clearClient true, state, [.logout])
  | .stopClient .clearSessions => (.clearClient false, state, [.shutdown])
  | .stopClient .reboot => (.clearClient false, state, [.shutdown])
  | .clearClient logoutAttempted =>
    (.loop ⟨true, logoutAttempted, .reboot⟩, state, [.clearClient])
  | .loop l =>
    if requested state > l.applied then
      match requested state with
      | .reset => (if !l.logoutAttempted then .logout l else .setLoggedOut l, state, [])
      | .clearSessions => (.sealWrites l .clearSessions, state, [])
      | .reboot => (.beginReboot { l with applied := .reboot }, state, [])
    else
      (.beginReboot l, state, [])
  | .logout l =>
    (.setLoggedOut { l with logoutAttempted := true }, state, if l.client then [.logout] else [])
  | .setLoggedOut l => (.sealWrites l .reset, state, [.setLoggedOut])
  | .sealWrites l erasure => (.erase l erasure, state, [.sealWrites])
  | .erase l erasure =>
    if succeeded then
      (.beginReboot { l with applied := erasure.action }, state, [.erase erasure true])
    else
      (.loop l, state, [.erase erasure false])
  | .beginReboot l =>
    match MaintenanceCoordinator.beginReboot state l.applied with
    | (true, state) => (.restart, state, [.beginReboot true])
    | (false, state) => (.loop l, state, [.beginReboot false])
  | .restart => (.finished, state, [.restart])
  | .finished => (.finished, state, [])

/-! ### The system -/

/-- The coordinator, whether a client is active, the tasks, and what has happened so far. -/
structure System where
  state : MaintenanceState
  active : Bool
  tasks : List Task
  log : List Event

namespace System

/-- A fresh coordinator and no tasks. -/
def initial : System := ⟨new, false, [], []⟩

/-- A request, from the dashboard or from the supervisor.  The caller runs the task that `Start`
asks for. -/
def request (s : System) (action : MaintenanceAction) : System where
  state := (MaintenanceCoordinator.request s.state action).2
  active := s.active
  tasks := if (MaintenanceCoordinator.request s.state action).1 = .start
    then s.tasks ++ [.readRequested] else s.tasks
  log := s.log ++ [.request action (MaintenanceCoordinator.request s.state action).1]

/-- The next call of the task between `before` and `after`. -/
def advance (s : System) (before after : List Task) (task : Task) (succeeded : Bool) : System where
  state := (task.next s.active succeeded s.state).2.1
  active := s.active
  tasks := before ++ (task.next s.active succeeded s.state).1 :: after
  log := s.log ++ (task.next s.active succeeded s.state).2.2

/-- A request, a change of the client, or a step of one of the tasks. -/
inductive Step : System → System → Prop
  | request (s : System) (action : MaintenanceAction) : Step s (s.request action)
  /-- Clients come and go. -/
  | client (s : System) (active : Bool) : Step s { s with active }
  | task (s : System) (before after : List Task) (task : Task) (h : s.tasks = before ++ task :: after)
      (succeeded : Bool) : Step s (s.advance before after task succeeded)

/-- Any finite run from a fresh coordinator. -/
def Reachable (s : System) : Prop := Relation.ReflTransGen Step initial s

end System

/-! ### The log -/

/-- The action of a request that was not rejected. -/
def Event.accepted? : Event → Option MaintenanceAction
  | .request action .start => some action
  | .request action .queued => some action
  | _ => none

/-- The action that a successful erasure has applied. -/
def Event.applied? : Event → Option MaintenanceAction
  | .erase erasure true => some erasure.action
  | _ => none

/-- The actions answered `Start` or `Queued`. -/
def accepted (log : List Event) : List MaintenanceAction := log.filterMap Event.accepted?

/-- The action last applied successfully. -/
def lastApplied (log : List Event) : MaintenanceAction :=
  (log.filterMap Event.applied?).getLast?.getD .reboot

/-- What an event must meet, given what happened before it: the first request starts the task and
no other does; after the window was closed every request is rejected; there is one logout; an
erasure comes after a seal, a reset of an active client also after the logout; and at the restart
the action last applied is the highest one accepted. -/
def Allowed (past : List Event) : Event → Prop
  | .request _ answer =>
    (answer = .start ↔ ∀ action answer, .request action answer ∉ past) ∧
      (.beginReboot true ∈ past → answer = .rejected)
  | .logout => .logout ∉ past
  | .erase erasure _ =>
    .sealWrites ∈ past ∧ (erasure = .reset → .current true ∈ past → .logout ∈ past)
  | .restart => IsGreatest {action | action ∈ accepted past} (lastApplied past)
  | _ => True

@[simp] theorem accepted_append (log es : List Event) :
    accepted (log ++ es) = accepted log ++ accepted es := List.filterMap_append ..

theorem lastApplied_append {es : List Event} (h : ∀ e ∈ es, e.applied? = none) (log : List Event) :
    lastApplied (log ++ es) = lastApplied log := by
  have hnil : es.filterMap Event.applied? = [] := List.filterMap_eq_nil_iff.mpr h
  rw [lastApplied, List.filterMap_append, hnil, List.append_nil, lastApplied]

theorem lastApplied_erase (log : List Event) (erasure : Maintenance) :
    lastApplied (log ++ [.erase erasure true]) = erasure.action := by
  simp [lastApplied, Event.applied?]

/-! ### The invariant -/

/-- The variables of the loop, when `highest` is the highest action accepted. -/
structure LocalsOk (highest : MaintenanceAction) (log : List Event) (l : Locals) : Prop where
  applied_eq : lastApplied log = l.applied
  applied_le : l.applied ≤ highest
  silent : l.logoutAttempted = false → .logout ∉ log
  told : l.logoutAttempted = true → l.client = true → .logout ∈ log
  client : .current true ∈ log → l.client = true

/-- What the log says about where the task is. -/
def TaskOk (highest : MaintenanceAction) (log : List Event) : Task → Prop
  | .readRequested | .readClient _ =>
    lastApplied log = .reboot ∧ .logout ∉ log ∧ .current true ∉ log
  | .stopClient _ => lastApplied log = .reboot ∧ .logout ∉ log
  | .clearClient logoutAttempted => lastApplied log = .reboot ∧
    (logoutAttempted = false → .logout ∉ log) ∧ (logoutAttempted = true → .logout ∈ log)
  | .loop l | .beginReboot l => LocalsOk highest log l
  | .logout l => LocalsOk highest log l ∧ l.logoutAttempted = false ∧ .reset ≤ highest
  | .setLoggedOut l => LocalsOk highest log l ∧ l.logoutAttempted = true ∧ .reset ≤ highest
  | .sealWrites l erasure => LocalsOk highest log l ∧ erasure.action ≤ highest ∧
    (erasure = .reset → l.logoutAttempted = true)
  | .erase l erasure => LocalsOk highest log l ∧ erasure.action ≤ highest ∧
    (erasure = .reset → l.logoutAttempted = true) ∧ .sealWrites ∈ log
  | .restart => lastApplied log = highest
  | .finished => True

/-- The task has closed the window. -/
def Task.closed : Task → Bool
  | .restart | .finished => true
  | _ => false

/-- A system in which a task was started. -/
structure Running (s : System) (highest : MaintenanceAction) (task : Task) : Prop where
  tasks : s.tasks = [task]
  requested : s.state.requested = some highest
  running : s.state.running = true
  accepting : s.state.accepting = !task.closed
  closed : .beginReboot true ∈ s.log ↔ task.closed = true
  asked : ∃ action answer, .request action answer ∈ s.log
  greatest : IsGreatest {action | action ∈ accepted s.log} highest
  task : TaskOk highest s.log task

/-- Nothing was asked for yet, or one task is running. -/
structure System.Ok (s : System) : Prop where
  allowed : Always Allowed s.log
  phase : (s.state = new ∧ s.tasks = [] ∧ s.log = []) ∨ ∃ highest task, Running s highest task

/-! ### Requests -/

section

variable {s : System} {highest highest' : MaintenanceAction} {log es : List Event} {task : Task}
  {l : Locals}

theorem LocalsOk.append (h : LocalsOk highest log l) (hle : highest ≤ highest')
    (happlied : ∀ e ∈ es, e.applied? = none) (hlogout : .logout ∉ es)
    (hcurrent : .current true ∉ es) : LocalsOk highest' (log ++ es) l where
  applied_eq := (lastApplied_append happlied log).trans h.applied_eq
  applied_le := h.applied_le.trans hle
  silent hl := by simpa [hlogout] using h.silent hl
  told hl hc := by simpa [hlogout] using h.told hl hc
  client hc := h.client (by simpa [hcurrent] using hc)

/-- Another request leaves the task where it is. -/
theorem TaskOk.request (h : TaskOk highest log task) (hle : highest ≤ highest')
    (hclosed : task.closed = true → highest' = highest) (action : MaintenanceAction)
    (answer : MaintenanceRequest) : TaskOk highest' (log ++ [.request action answer]) task := by
  have happlied : ∀ e ∈ [Event.request action answer], e.applied? = none := by simp [Event.applied?]
  have hlocals : ∀ l, LocalsOk highest log l →
      LocalsOk highest' (log ++ [.request action answer]) l := fun l hl =>
    hl.append hle happlied (by simp) (by simp)
  cases task with
  | readRequested => simpa [TaskOk, lastApplied_append happlied] using h
  | readClient initial => simpa [TaskOk, lastApplied_append happlied] using h
  | stopClient initial => simpa [TaskOk, lastApplied_append happlied] using h
  | clearClient attempted => simpa [TaskOk, lastApplied_append happlied] using h
  | loop l => exact hlocals l h
  | logout l => exact ⟨hlocals l h.1, h.2.1, h.2.2.trans hle⟩
  | setLoggedOut l => exact ⟨hlocals l h.1, h.2.1, h.2.2.trans hle⟩
  | sealWrites l erasure => exact ⟨hlocals l h.1, h.2.1.trans hle, h.2.2⟩
  | erase l erasure => exact ⟨hlocals l h.1, h.2.1.trans hle, h.2.2.1, by simp [h.2.2.2]⟩
  | beginReboot l => exact hlocals l h
  | restart =>
    show lastApplied _ = highest'
    rw [lastApplied_append happlied, hclosed rfl]
    exact h
  | finished => trivial

/-- The first request starts the task. -/
theorem ok_firstRequest (hstate : s.state = new) (htasks : s.tasks = []) (hlog : s.log = [])
    (action : MaintenanceAction) : (s.request action).Ok := by
  have hrequest : MaintenanceCoordinator.request s.state action =
      (.start, ⟨some action, true, true⟩) := by rw [hstate]; rfl
  refine ⟨?_, Or.inr ⟨action, .readRequested, ?_⟩⟩
  · simp only [System.request, hrequest, hlog]
    exact always_append_singleton.mpr ⟨always_nil, by simp [Allowed]⟩
  · simp only [System.request, hrequest, hlog, htasks]
    constructor
    all_goals simp [TaskOk, Task.closed, lastApplied, accepted, Event.applied?, Event.accepted?,
      IsGreatest, upperBounds]

theorem Running.allowed_request (h : Running s highest task) (action : MaintenanceAction)
    {answer : MaintenanceRequest} (hstart : answer ≠ .start)
    (hrejected : task.closed = true → answer = .rejected) :
    Allowed s.log (.request action answer) := by
  refine ⟨⟨fun h => absurd h hstart, fun hnone => ?_⟩, fun hclosed => ?_⟩
  · obtain ⟨action', answer', hmem⟩ := h.asked
    exact absurd hmem (hnone action' answer')
  · exact hrejected (h.closed.mp hclosed)

/-- A later request is queued, or rejected once the window is closed. -/
theorem Running.request (h : Running s highest task) (hlog : Always Allowed s.log)
    (action : MaintenanceAction) : (s.request action).Ok := by
  cases hclosed : task.closed with
  | true =>
    have hrequest : MaintenanceCoordinator.request s.state action = (.rejected, s.state) := by
      simp [MaintenanceCoordinator.request, h.accepting, hclosed]
    refine ⟨?_, Or.inr ⟨highest, task, ?_⟩⟩
    · simp only [System.request, hrequest]
      exact always_append_singleton.mpr
        ⟨hlog, h.allowed_request action (by decide) fun _ => rfl⟩
    · simp only [System.request, hrequest]
      refine ⟨h.tasks, h.requested, h.running, h.accepting, ?_, ?_, ?_, ?_⟩
      · simpa using h.closed
      · exact ⟨action, .rejected, by simp⟩
      · simpa [accepted, Event.accepted?] using h.greatest
      · exact h.task.request le_rfl (fun _ => rfl) action .rejected
  | false =>
    have hrequest : MaintenanceCoordinator.request s.state action =
        (.queued, { s.state with requested := some (max highest action) }) := by
      simp [MaintenanceCoordinator.request, h.accepting, hclosed, h.running, h.requested]
    refine ⟨?_, Or.inr ⟨max highest action, task, ?_⟩⟩
    · simp only [System.request, hrequest]
      exact always_append_singleton.mpr
        ⟨hlog, h.allowed_request action (by decide) fun hc => absurd hc (by simp [hclosed])⟩
    · simp only [System.request, hrequest]
      refine ⟨h.tasks, rfl, h.running, h.accepting, ?_, ?_, ?_, ?_⟩
      · simpa using h.closed
      · exact ⟨action, .queued, by simp⟩
      · have hset : {a | a ∈ accepted (s.log ++ [.request action .queued])} =
            insert action {a | a ∈ accepted s.log} := by
          ext a
          simp [accepted, Event.accepted?, or_comm]
        rw [hset, max_comm]
        exact h.greatest.insert action
      · exact h.task.request (le_max_left _ _) (fun hc => absurd hc (by simp [hclosed])) action
          .queued

/-! ### Steps of the task -/

/-- A call that leaves the coordinator alone. -/
theorem Running.move (h : Running s highest task) {task' : Task}
    (hclosed : task'.closed = task.closed)
    (hes : ∀ e ∈ es, e.accepted? = none ∧ e ≠ .beginReboot true)
    (htask : TaskOk highest (s.log ++ es) task') :
    Running ⟨s.state, s.active, [task'], s.log ++ es⟩ highest task' := by
  have haccepted : accepted es = [] := List.filterMap_eq_nil_iff.mpr fun e he => (hes e he).1
  refine ⟨rfl, h.requested, h.running, ?_, ?_, ?_, ?_, htask⟩
  · rw [hclosed]
    exact h.accepting
  · rw [hclosed, List.mem_append, or_iff_left fun he => (hes _ he).2 rfl]
    exact h.closed
  · obtain ⟨action, answer, hmem⟩ := h.asked
    exact ⟨action, answer, List.mem_append_left _ hmem⟩
  · simpa [haccepted] using h.greatest

theorem Running.requested_eq (h : Running s highest task) :
    MaintenanceCoordinator.requested s.state = highest := by
  rw [MaintenanceCoordinator.requested, h.requested]
  rfl

/-- The event of a step is allowed, and the task goes on. -/
theorem ok_of_event (e : Event) (hlog : Always Allowed s.log) (he : Allowed s.log e)
    {state : MaintenanceState} {task' : Task}
    (h : Running ⟨state, s.active, [task'], s.log ++ [e]⟩ highest task') :
    System.Ok ⟨state, s.active, [task'], s.log ++ [e]⟩ :=
  ⟨always_append_singleton.mpr ⟨hlog, he⟩, Or.inr ⟨highest, task', h⟩⟩

theorem ok_of_silent {task' : Task} (hlog : Always Allowed s.log)
    (h : Running ⟨s.state, s.active, [task'], s.log ++ []⟩ highest task') :
    System.Ok ⟨s.state, s.active, [task'], s.log ++ []⟩ :=
  ⟨by simpa using hlog, Or.inr ⟨highest, task', h⟩⟩

/-- Before the loop: the client is stopped. -/
theorem Running.stopClient {initial : MaintenanceAction}
    (h : Running s highest (.stopClient initial)) (hlog : Always Allowed s.log)
    (succeeded : Bool) : (s.advance [] [] (.stopClient initial) succeeded).Ok := by
  obtain ⟨happlied, hsilent⟩ := h.task
  cases initial with
  | reset =>
    refine ok_of_event .logout hlog hsilent (h.move rfl (by simp [Event.accepted?]) ?_)
    exact ⟨(lastApplied_append (by simp [Event.applied?]) _).trans happlied, nofun, by simp⟩
  | clearSessions =>
    refine ok_of_event .shutdown hlog trivial (h.move rfl (by simp [Event.accepted?]) ?_)
    exact ⟨(lastApplied_append (by simp [Event.applied?]) _).trans happlied, by simpa using hsilent,
      nofun⟩
  | reboot =>
    refine ok_of_event .shutdown hlog trivial (h.move rfl (by simp [Event.accepted?]) ?_)
    exact ⟨(lastApplied_append (by simp [Event.applied?]) _).trans happlied, by simpa using hsilent,
      nofun⟩

/-- The top of the loop: what is asked for now. -/
theorem Running.loop (h : Running s highest (.loop l)) (hlog : Always Allowed s.log)
    (succeeded : Bool) : (s.advance [] [] (.loop l) succeeded).Ok := by
  have hl : LocalsOk highest s.log l := h.task
  have hmove : ∀ task' : Task, task'.closed = false → TaskOk highest s.log task' →
      System.Ok ⟨s.state, s.active, [task'], s.log ++ []⟩ := by
    intro task' hclosed htask
    refine ok_of_silent hlog (h.move hclosed (by simp) ?_)
    rwa [List.append_nil]
  simp only [System.advance, Task.next, h.requested_eq]
  by_cases hmore : highest > l.applied
  · simp only [if_pos hmore]
    cases highest with
    | reset =>
      cases hattempted : l.logoutAttempted with
      | false => exact hmove (.logout l) rfl ⟨hl, hattempted, le_rfl⟩
      | true => exact hmove (.setLoggedOut l) rfl ⟨hl, hattempted, le_rfl⟩
    | clearSessions => exact hmove (.sealWrites l .clearSessions) rfl ⟨hl, le_rfl, nofun⟩
    | reboot =>
      -- nothing is lower than a reboot
      exact absurd hmore (not_lt.mpr (reboot_le _))
  · simp only [if_neg hmore]
    exact hmove (.beginReboot l) rfl hl

theorem Running.logout (h : Running s highest (.logout l)) (hlog : Always Allowed s.log)
    (succeeded : Bool) : (s.advance [] [] (.logout l) succeeded).Ok := by
  obtain ⟨hl, hattempted, hreset⟩ := h.task
  simp only [System.advance, Task.next]
  by_cases hclient : l.client = true
  · simp only [if_pos hclient]
    refine ok_of_event .logout hlog (hl.silent hattempted)
      (h.move rfl (by simp [Event.accepted?]) ?_)
    refine ⟨⟨?_, hl.applied_le, nofun, by simp, fun _ => hclient⟩, rfl, hreset⟩
    exact (lastApplied_append (by simp [Event.applied?]) _).trans hl.applied_eq
  · simp only [if_neg hclient]
    refine ok_of_silent hlog (h.move rfl (by simp) ?_)
    rw [List.append_nil]
    exact ⟨⟨hl.applied_eq, hl.applied_le, nofun, fun _ hc => absurd hc hclient, hl.client⟩, rfl,
      hreset⟩

theorem Running.erase {erasure : Maintenance} (h : Running s highest (.erase l erasure))
    (hlog : Always Allowed s.log) (succeeded : Bool) :
    (s.advance [] [] (.erase l erasure) succeeded).Ok := by
  obtain ⟨hl, hle, hattempted, hsealed⟩ := h.task
  have hallowed : Allowed s.log (.erase erasure succeeded) :=
    ⟨hsealed, fun hreset hcurrent => hl.told (hattempted hreset) (hl.client hcurrent)⟩
  simp only [System.advance, Task.next]
  cases succeeded with
  | true =>
    refine ok_of_event _ hlog hallowed (h.move rfl (by simp [Event.accepted?]) ?_)
    refine ⟨lastApplied_erase s.log erasure, hle, ?_, ?_, ?_⟩
    · simpa using hl.silent
    · simpa using hl.told
    · simpa using hl.client
  | false =>
    refine ok_of_event _ hlog hallowed (h.move rfl (by simp [Event.accepted?]) ?_)
    exact hl.append le_rfl (by simp [Event.applied?]) (by simp) (by simp)

/-- The window is closed only if nothing higher was asked for. -/
theorem Running.beginReboot (h : Running s highest (.beginReboot l)) (hlog : Always Allowed s.log)
    (succeeded : Bool) : (s.advance [] [] (.beginReboot l) succeeded).Ok := by
  have hl : LocalsOk highest s.log l := h.task
  by_cases hmore : highest > l.applied
  · have hstay : MaintenanceCoordinator.beginReboot s.state l.applied = (false, s.state) := by
      simp [MaintenanceCoordinator.beginReboot, h.requested, hmore]
    simp only [System.advance, Task.next, hstay]
    refine ok_of_event (.beginReboot false) hlog trivial (h.move rfl (by simp [Event.accepted?]) ?_)
    exact hl.append le_rfl (by simp [Event.applied?]) (by simp) (by simp)
  · have hclose : MaintenanceCoordinator.beginReboot s.state l.applied =
        (true, { s.state with accepting := false }) := by
      simp [MaintenanceCoordinator.beginReboot, h.requested, hmore]
    have heq : l.applied = highest := le_antisymm hl.applied_le (not_lt.mp hmore)
    simp only [System.advance, Task.next, hclose]
    refine ok_of_event (.beginReboot true) hlog trivial ⟨rfl, h.requested, h.running, rfl,
      by simp [Task.closed], ?_, ?_, ?_⟩
    · obtain ⟨action, answer, hmem⟩ := h.asked
      exact ⟨action, answer, List.mem_append_left _ hmem⟩
    · simpa [accepted, Event.accepted?] using h.greatest
    · show lastApplied _ = highest
      rw [lastApplied_append (by simp [Event.applied?]), hl.applied_eq, heq]

/-- Every call of the task keeps the invariant. -/
theorem Running.next (h : Running s highest task) (hlog : Always Allowed s.log)
    (succeeded : Bool) : (s.advance [] [] task succeeded).Ok := by
  cases task with
  | readRequested =>
    refine ok_of_silent hlog (h.move rfl (by simp) ?_)
    rw [List.append_nil]
    exact h.task
  | readClient initial =>
    obtain ⟨happlied, hsilent, hcurrent⟩ := h.task
    have hlast : ∀ active, lastApplied (s.log ++ [.current active]) = .reboot := fun active =>
      (lastApplied_append (by simp [Event.applied?]) _).trans happlied
    simp only [System.advance, Task.next]
    -- the client may have gone since the request was read
    by_cases hactive : s.active = true
    · simp only [if_pos hactive]
      refine ok_of_event (.current true) hlog trivial (h.move rfl (by simp [Event.accepted?]) ?_)
      exact ⟨hlast true, by simpa using hsilent⟩
    · simp only [if_neg hactive]
      refine ok_of_event (.current false) hlog trivial (h.move rfl (by simp [Event.accepted?]) ?_)
      exact ⟨hlast false, reboot_le _, by simpa using hsilent, nofun, by simpa using hcurrent⟩
  | stopClient initial => exact h.stopClient hlog succeeded
  | clearClient attempted =>
    obtain ⟨happlied, hsilent, htold⟩ := h.task
    refine ok_of_event .clearClient hlog trivial (h.move rfl (by simp [Event.accepted?]) ?_)
    refine ⟨(lastApplied_append (by simp [Event.applied?]) _).trans happlied, reboot_le _, ?_, ?_,
      fun _ => rfl⟩
    · simpa using hsilent
    · intro hattempted _
      simpa using htold hattempted
  | loop l => exact h.loop hlog succeeded
  | logout l => exact h.logout hlog succeeded
  | setLoggedOut l =>
    obtain ⟨hl, hattempted, hreset⟩ := h.task
    refine ok_of_event .setLoggedOut hlog trivial (h.move rfl (by simp [Event.accepted?]) ?_)
    exact ⟨hl.append le_rfl (by simp [Event.applied?]) (by simp) (by simp), hreset,
      fun _ => hattempted⟩
  | sealWrites l erasure =>
    obtain ⟨hl, hle, hattempted⟩ := h.task
    refine ok_of_event .sealWrites hlog trivial (h.move rfl (by simp [Event.accepted?]) ?_)
    exact ⟨hl.append le_rfl (by simp [Event.applied?]) (by simp) (by simp), hle, hattempted,
      by simp⟩
  | erase l erasure => exact h.erase hlog succeeded
  | beginReboot l => exact h.beginReboot hlog succeeded
  | restart =>
    have hlast : lastApplied s.log = highest := h.task
    refine ok_of_event .restart hlog ?_ (h.move rfl (by simp [Event.accepted?]) trivial)
    show IsGreatest _ _
    rw [hlast]
    exact h.greatest
  | finished => exact ok_of_silent hlog (h.move rfl (by simp) trivial)

end

namespace System

theorem ok_initial : initial.Ok := ⟨always_nil, Or.inl ⟨rfl, rfl, rfl⟩⟩

theorem Ok.step {s s' : System} (h : s.Ok) (hstep : Step s s') : s'.Ok := by
  cases hstep with
  | request action =>
    obtain ⟨hlog, ⟨hstate, htasks, hnil⟩ | ⟨highest, task, hrunning⟩⟩ := h
    · exact ok_firstRequest hstate htasks hnil action
    · exact hrunning.request hlog action
  | client active =>
    refine ⟨h.allowed, h.phase.imp id ?_⟩
    rintro ⟨highest, task, hr⟩
    exact ⟨highest, task, hr.tasks, hr.requested, hr.running, hr.accepting, hr.closed, hr.asked,
      hr.greatest, hr.task⟩
  | task before after task htasks succeeded =>
    obtain ⟨hlog, ⟨-, hnil, -⟩ | ⟨highest, task', hrunning⟩⟩ := h
    · simp [hnil] at htasks
    · -- there is no other task
      rw [hrunning.tasks] at htasks
      obtain ⟨rfl, hrest⟩ : before = [] ∧ [task'] = task :: after := by
        cases before with
        | nil => exact ⟨rfl, htasks⟩
        | cons t before => simp at htasks
      obtain ⟨rfl, rfl⟩ := List.cons.inj hrest
      exact hrunning.next hlog succeeded

theorem Reachable.ok {s : System} (h : Reachable s) : s.Ok := by
  induction h with
  | refl => exact ok_initial
  | tail _ hstep ih => exact ih.step hstep

end System

/-- **No accepted request is lost.**  Whatever is asked for and whenever, and however often an
erasure fails, there is at most one task, and what happens is allowed. -/
theorem no_request_lost {s : System} (h : s.Reachable) :
    s.tasks.length ≤ 1 ∧ Always Allowed s.log := by
  have hok := h.ok
  refine ⟨?_, hok.allowed⟩
  rcases hok.phase with ⟨-, hnil, -⟩ | ⟨highest, task, hrunning⟩
  · simp [hnil]
  · simp [hrunning.tasks]

/-- One move of a run in which the tasks are taken from the front. -/
inductive Move
  | request (action : MaintenanceAction)
  | client (active : Bool)
  | task (succeeded : Bool)

/-- The state after a move, in which the oldest task is the one that steps. -/
def System.play (s : System) : Move → System
  | .request action => s.request action
  | .client active => { s with active }
  | .task succeeded =>
    match s.tasks with
    | [] => s
    | task :: tasks => s.advance [] tasks task succeeded

theorem System.Reachable.play {s : System} (h : s.Reachable) (move : Move) :
    (s.play move).Reachable := by
  cases move with
  | request action => exact h.tail (.request s action)
  | client active => exact h.tail (.client s active)
  | task succeeded =>
    cases htasks : s.tasks with
    | nil => simpa [System.play, htasks] using h
    | cons task tasks =>
      simp only [System.play, htasks]
      exact h.tail (.task s [] tasks task htasks succeeded)

theorem System.Reachable.playAll {s : System} (h : s.Reachable) (moves : List Move) :
    (moves.foldl System.play s).Reachable := by
  induction moves generalizing s with
  | nil => exact h
  | cons move moves ih => exact ih (h.play move)

/-- A reboot is upgraded to a reset while the client shuts down; the first erasure fails, and a
request after the window was closed is rejected. -/
def upgradedReboot : System :=
  [.client true, .request .reboot, .task true, .task true, .request .reset, .task true, .task true,
    .task true, .task true, .task true, .task true, .task false, .task true, .task true, .task true,
    .task true, .task true, .request .clearSessions, .task true].foldl System.play .initial

theorem upgradedReboot_allowed :
    upgradedReboot.log.getLast? = some .restart ∧ lastApplied upgradedReboot.log = .reset ∧
    upgradedReboot.tasks.length ≤ 1 ∧ Always Allowed upgradedReboot.log :=
  ⟨rfl, rfl, no_request_lost (System.Reachable.playAll .refl _)⟩

end WhatsappEsp32
