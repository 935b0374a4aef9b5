import WhatsappEsp32.Admin.Maintenance

/-!
# Starts that fail

A requester that is answered `Start` has to queue the maintenance task.  When the executor does not
take it, the requester calls `cancel_start`, which forgets everything that is requested: also what
others were promised (`Queued`) in the meantime.

* `Desk`, `Desk.play`: the requests, the tasks they start and the starts that are cancelled;
* `Covered`: no promise is forgotten;
* `covered_iff`: exactly if nothing is asked for between a `Start` and its cancellation.
-/

namespace WhatsappEsp32

open MaintenanceCoordinator

/-- What the requesters and the tasks have done. -/
inductive DeskEvent
  | event (e : Event)
  /-- The task that a `Start` asked for was queued. -/
  | started
  /-- It could not be queued; `cancel_start` was called. -/
  | cancelled

/-- The coordinator, the callers and the tasks, with the log of what they did. -/
structure Desk where
  state : MaintenanceState
  /-- Whether there is a client. -/
  active : Bool
  /-- The requesters answered `Start` that have not queued the task yet. -/
  starting : ℕ
  tasks : List Task
  log : List DeskEvent

/-- A step of somebody. -/
inductive DeskMove
  | request (action : MaintenanceAction)
  | queueTask
  | cancelStart
  | client (active : Bool)
  /-- The next call of the `i`-th task, and whether an erasure succeeds now. -/
  | task (i : ℕ) (succeeded : Bool)

namespace Desk

/-- A fresh coordinator, without a client. -/
def initial : Desk := ⟨new, false, 0, [], []⟩

/-- `queue_maintenance` up to the answer of the coordinator, or the supervisor's request. -/
def request (s : Desk) (action : MaintenanceAction) : Desk where
  state := (MaintenanceCoordinator.request s.state action).2
  active := s.active
  starting := if (MaintenanceCoordinator.request s.state action).1 = .start
    then s.starting + 1 else s.starting
  tasks := s.tasks
  log := s.log ++ [.event (.request action (MaintenanceCoordinator.request s.state action).1)]

/-- Task `i` takes its next step. -/
def advance (s : Desk) (i : ℕ) (task : Task) (succeeded : Bool) : Desk where
  state := (task.next s.active succeeded s.state).2.1
  active := s.active
  starting := s.starting
  tasks := s.tasks.set i (task.next s.active succeeded s.state).1
  log := s.log ++ (task.next s.active succeeded s.state).2.2.map .event

/-- The state after a move; a move that cannot be made changes nothing. -/
def play (s : Desk) : DeskMove → Desk
  | .request action => s.request action
  | .queueTask =>
    match s.starting with
    | 0 => s
    | starting + 1 =>
      { s with starting, tasks := s.tasks ++ [.readRequested], log := s.log ++ [.started] }
  | .cancelStart =>
    match s.starting with
    | 0 => s
    | starting + 1 =>
      { s with starting, state := cancelStart s.state, log := s.log ++ [.cancelled] }
  | .client active => { s with active }
  | .task i succeeded =>
    match s.tasks[i]? with
    | none => s
    | some task => s.advance i task succeeded

/-- The desk after any steps of anybody. -/
def run (moves : List DeskMove) : Desk := moves.foldl play initial

theorem run_concat (moves : List DeskMove) (move : DeskMove) :
    run (moves ++ [move]) = (run moves).play move := by
  simp [run]

end Desk

/-! ### What is promised -/

/-- A request that was answered `Queued`. -/
abbrev promise (action : MaintenanceAction) : DeskEvent := .event (.request action .queued)

/-- A request that was answered `Queued` has been applied since, or at least as much is requested
now, or a later `Start` for at least as much has handed it to a task. -/
def Covered (s : Desk) : Prop :=
  ∀ before action after, s.log = before ++ promise action :: after →
    (∃ erasure : Maintenance, action ≤ erasure.action ∧ .event (.erase erasure true) ∈ after) ∨
    (∃ requested, s.state.requested = some requested ∧ action ≤ requested) ∨
    ∃ between later rest, after = between ++ .event (.request later .start) :: rest ∧
      action ≤ later ∧ .started ∈ rest

/-- Nothing was asked for since the `Start` that is about to be cancelled. -/
def NothingSince (s : Desk) : Prop :=
  s.starting = 0 ∨ ∃ action, s.log.getLast? = some (.event (.request action .start))

/-! ### Phases -/

/-- Who is in charge: nobody, a requester that was answered `Start`, or a task.  Since that `Start`
the log has promises only.  When promises are `kept`, there is none of before that `Start`, and
whoever is in charge knows of them all. -/
inductive Desk.Phase (kept : Prop) (s : Desk) : Prop
  | idle (state : s.state = new) (starting : s.starting = 0) (tasks : s.tasks = [])
      (none : kept → ∀ action, promise action ∉ s.log)
  | starting (highest : MaintenanceAction) (state : s.state = ⟨some highest, true, true⟩)
      (starting : s.starting = 1) (tasks : s.tasks = []) (before : List DeskEvent)
      (first : MaintenanceAction) (queued : List MaintenanceAction)
      (log : s.log = before ++ .event (.request first .start) :: queued.map promise)
      (le : ∀ action ∈ queued, action ≤ highest) (none : kept → ∀ action, promise action ∉ before)
  | running (highest : MaintenanceAction) (requested : s.state.requested = some highest)
      (running : s.state.running = true) (starting : s.starting = 0)
      (le : kept → ∀ action, promise action ∈ s.log → action ≤ highest)

section

variable {kept : Prop} {s : Desk}

open Desk

theorem beginReboot_requested (state : MaintenanceState) (applied : MaintenanceAction) :
    (MaintenanceCoordinator.beginReboot state applied).2.requested = state.requested ∧
      (MaintenanceCoordinator.beginReboot state applied).2.running = state.running := by
  rw [MaintenanceCoordinator.beginReboot]
  split_ifs <;> exact ⟨rfl, rfl⟩

/-- A task changes nothing but whether requests are accepted. -/
theorem Task.next_requested (task : Task) (active succeeded : Bool) (state : MaintenanceState) :
    (task.next active succeeded state).2.1.requested = state.requested ∧
      (task.next active succeeded state).2.1.running = state.running := by
  fun_cases Task.next active succeeded state task
  all_goals try exact ⟨rfl, rfl⟩
  -- only `begin_reboot` returns another state
  all_goals
    rename_i l _ h
    have hstate := beginReboot_requested state l.applied
    rwa [h] at hstate

/-- A task promises nothing. -/
theorem Task.next_events (task : Task) (active succeeded : Bool) (state : MaintenanceState)
    (action : MaintenanceAction) (answer : MaintenanceRequest) :
    .request action answer ∉ (task.next active succeeded state).2.2 := by
  fun_cases Task.next active succeeded state task <;> simp

theorem phase_initial : Phase kept initial := .idle rfl rfl rfl fun _ _ h => by cases h

theorem Desk.Phase.request (h : Phase kept s) (action : MaintenanceAction) :
    Phase kept (s.request action) := by
  cases h with
  | idle state starting tasks none =>
    have hrequest : MaintenanceCoordinator.request s.state action =
        (.start, ⟨some action, true, true⟩) := by
      rw [state]
      rfl
    refine .starting action ?_ ?_ tasks s.log action [] ?_ (by simp) none
    · simp only [Desk.request, hrequest]
    · simp only [Desk.request, hrequest, starting, if_true]
    · simp only [Desk.request, hrequest, List.map_nil]
  | starting highest state starting tasks before first queued log le none =>
    have hrequest : MaintenanceCoordinator.request s.state action =
        (.queued, ⟨some (max highest action), true, true⟩) := by
      rw [state]
      rfl
    refine .starting (max highest action) ?_ ?_ tasks before first (queued ++ [action]) ?_ ?_ none
    · simp only [Desk.request, hrequest]
    · simp only [Desk.request, hrequest, starting]
      rfl
    · simp only [Desk.request, hrequest, log]
      simp
    · intro a ha
      rcases List.mem_append.mp ha with ha | ha
      · exact (le a ha).trans (le_max_left _ _)
      · rw [List.mem_singleton.mp ha]
        exact le_max_right _ _
  | running highest requested running starting le =>
    by_cases haccepting : s.state.accepting = true
    · have hrequest : MaintenanceCoordinator.request s.state action =
          -- queued behind the task in flight, which may be upgraded
          (.queued, { s.state with requested := some (max highest action) }) := by
        simp [MaintenanceCoordinator.request, haccepting, running, requested]
      refine .running (max highest action) ?_ ?_ ?_ ?_
      · simp only [Desk.request, hrequest]
      · simp only [Desk.request, hrequest, running]
      · simp only [Desk.request, hrequest, starting]
        rfl
      · intro hkept a ha
        simp only [Desk.request, hrequest, List.mem_append, List.mem_singleton] at ha
        rcases ha with ha | ha
        · exact (le hkept a ha).trans (le_max_left _ _)
        · cases ha
          exact le_max_right _ _
    · have hrequest : MaintenanceCoordinator.request s.state action = (.rejected, s.state) := by
        simp [MaintenanceCoordinator.request, haccepting]
      refine .running highest ?_ ?_ ?_ ?_
      · simp only [Desk.request, hrequest, requested]
      · simp only [Desk.request, hrequest, running]
      · simp only [Desk.request, hrequest, starting]
        rfl
      · intro hkept a ha
        simp only [Desk.request, hrequest, List.mem_append, List.mem_singleton] at ha
        rcases ha with ha | ha
        · exact le hkept a ha
        · cases ha

theorem Desk.Phase.advance (h : Phase kept s) {i : ℕ} {task : Task} (htask : s.tasks[i]? = some task)
    (succeeded : Bool) : Phase kept (s.advance i task succeeded) := by
  cases h with
  | idle state starting tasks none => simp [tasks] at htask
  | starting highest state starting tasks before first queued log le none => simp [tasks] at htask
  | running highest requested running starting le =>
    obtain ⟨hrequested, hrunning⟩ := task.next_requested s.active succeeded s.state
    refine .running highest (hrequested.trans requested) (hrunning.trans running) starting ?_
    intro hkept a ha
    rcases List.mem_append.mp ha with ha | ha
    · exact le hkept a ha
    · obtain ⟨e, he, heq⟩ := List.mem_map.mp ha
      cases heq
      exact absurd he (task.next_events _ _ _ _ _)

/-- The task knows of every promise, those of before it too. -/
theorem Desk.Phase.queueTask (h : Phase kept s) : Phase kept (s.play .queueTask) := by
  cases h with
  | idle state starting tasks none =>
    rw [play, starting]
    exact .idle state starting tasks none
  | starting highest state starting tasks before first queued log le none =>
    rw [play, starting]
    refine .running highest (by rw [state]) (by rw [state]) rfl fun hkept a ha => ?_
    simp only [log, List.mem_append, List.mem_cons, List.mem_map] at ha
    rcases ha with (ha | ha | ⟨b, hb, heq⟩) | ha | ha
    · exact absurd ha (none hkept a)
    · cases ha
    · cases heq
      exact le a hb
    · cases ha
    · cases ha
  | running highest requested running starting le =>
    rw [play, starting]
    exact .running highest requested running starting le

/-- What is forgotten is only what nobody was promised. -/
theorem Desk.Phase.cancelStart (h : Phase kept s) (hnothing : kept → NothingSince s) :
    Phase kept (s.play .cancelStart) := by
  cases h with
  | idle state starting tasks none =>
    rw [play, starting]
    exact .idle state starting tasks none
  | starting highest state starting tasks before first queued log le none =>
    rw [play, starting]
    refine .idle (by rw [state]; rfl) rfl tasks fun hkept a ha => ?_
    obtain hzero | ⟨action, hlast⟩ := hnothing hkept
    · rw [starting] at hzero
      cases hzero
    · have hqueued : queued = [] := by
        cases queued using List.reverseRecOn with
        | nil => rfl
        | append_singleton queued b =>
          rw [log, List.map_append, List.map_singleton, ← List.cons_append, ← List.append_assoc,
            List.getLast?_concat] at hlast
          cases hlast
      simp only [log, hqueued, List.map_nil, List.mem_append, List.mem_singleton] at ha
      rcases ha with (ha | ha) | ha
      · exact none hkept a ha
      · cases ha
      · cases ha
  | running highest requested running starting le =>
    rw [play, starting]
    exact .running highest requested running starting le

theorem Desk.Phase.client (h : Phase kept s) (active : Bool) :
    Phase kept (s.play (.client active)) := by
  cases h with
  | idle state starting tasks none => exact .idle state starting tasks none
  | starting highest state starting tasks before first queued log le none =>
    exact .starting highest state starting tasks before first queued log le none
  | running highest requested running starting le =>
    exact .running highest requested running starting le

theorem Desk.Phase.play (h : Phase kept s) (move : DeskMove)
    (hnothing : move = .cancelStart → kept → NothingSince s) : Phase kept (s.play move) := by
  cases move with
  | request action => exact h.request action
  | queueTask => exact h.queueTask
  | cancelStart => exact h.cancelStart (hnothing rfl)
  | client active => exact h.client active
  | task i succeeded =>
    cases htask : s.tasks[i]? with
    | none => simpa only [Desk.play, htask] using h
    | some task =>
      simp only [Desk.play, htask]
      exact h.advance htask succeeded

/-- Every run keeps the phases, and the promises too if no cancellation forgets one. -/
theorem phase_run (moves : List DeskMove)
    (h : ∀ before after, moves = before ++ .cancelStart :: after → kept → NothingSince (run before)) :
    Phase kept (run moves) := by
  induction moves using List.reverseRecOn with
  | nil => exact phase_initial
  | append_singleton moves move ih =>
    rw [run_concat]
    refine (ih fun before after heq => ?_).play move fun hcancel => ?_
    · exact h before (after ++ [move]) (by rw [heq, List.append_assoc, List.cons_append])
    · exact h moves [] (by rw [hcancel])

theorem Desk.Phase.covered (h : Phase True s) : Covered s := by
  intro before action after hlog
  have hmem : promise action ∈ s.log := by simp [hlog]
  refine Or.inr (Or.inl ?_)
  cases h with
  | idle state starting tasks none => exact absurd hmem (none trivial action)
  | starting highest state starting tasks earlier first queued log le none =>
    refine ⟨highest, by rw [state], ?_⟩
    simp only [log, List.mem_append, List.mem_cons, List.mem_map] at hmem
    rcases hmem with hmem | hmem | ⟨b, hb, heq⟩
    · exact absurd hmem (none trivial action)
    · cases hmem
    · cases heq
      exact le action hb
  | running highest requested running starting le =>
    exact ⟨highest, requested, le trivial action hmem⟩

/-- A cancellation forgets what was promised since its `Start`. -/
theorem not_covered_of_cancel (h : Phase False s) (hsince : ¬NothingSince s) :
    ¬Covered (s.play .cancelStart) := by
  obtain ⟨hstarting, hlast⟩ := not_or.mp hsince
  cases h with
  | idle state starting tasks none => exact absurd starting hstarting
  | running highest requested running starting le => exact absurd starting hstarting
  | starting highest state starting tasks before first queued log le none =>
    cases queued using List.reverseRecOn with
    | nil => exact absurd ⟨first, by simp [log]⟩ hlast
    | append_singleton queued b =>
      intro hcovered
      rw [Desk.play, starting] at hcovered
      obtain ⟨erasure, -, hmem⟩ | ⟨requested, hsome, -⟩ | ⟨between, later, rest, heq, -, hmem⟩ :=
        hcovered (before ++ .event (.request first .start) :: queued.map promise) b [.cancelled]
          (by simp [log])
      · simp at hmem
      · cases hsome
      · -- nothing follows the cancellation
        cases between with
        | nil => cases heq
        | cons x between => simp at heq

end

/-- **Promises are kept** at every moment of a run exactly if nothing is asked for between a `Start`
and its cancellation. -/
theorem covered_iff (moves : List DeskMove) :
    (∀ n, Covered (Desk.run (moves.take n))) ↔
      ∀ before after, moves = before ++ .cancelStart :: after → NothingSince (Desk.run before) := by
  constructor
  · rintro h before after rfl
    by_contra hsince
    have hphase : (Desk.run before).Phase False := phase_run before fun _ _ _ => False.elim
    apply not_covered_of_cancel hphase hsince
    have htake := h (before.length + 1)
    rwa [List.take_length_add_append, List.take_succ_cons, List.take_zero,
      Desk.run_concat] at htake
  · intro h n
    refine Desk.Phase.covered (phase_run _ fun before after heq _ => ?_)
    refine h before (after ++ moves.drop n) ?_
    rw [← List.cons_append, ← List.append_assoc, ← heq, List.take_append_drop]

/-- The dashboard's reboot is answered `Start`, the supervisor's reset `Queued`; then the reboot
cannot be queued.  A second reboot runs to its end. -/
def forgottenReset : List DeskMove :=
  [.request .reboot, .request .reset, .cancelStart, .request .reboot, .queueTask, .task 0 true,
    .task 0 true, .task 0 true, .task 0 true, .task 0 true]

theorem forgottenReset_lost :
    (Desk.run (forgottenReset.take 3)).log =
      [.event (.request .reboot .start), .event (.request .reset .queued), .cancelled] ∧
    ¬Covered (Desk.run (forgottenReset.take 3)) ∧
    ¬Covered (Desk.run forgottenReset) ∧
    (Desk.run forgottenReset).log.getLast? = some (.event .restart) := by
  refine ⟨rfl, ?_, ?_, rfl⟩
  · intro h
    obtain ⟨erasure, -, hmem⟩ | ⟨requested, hsome, -⟩ | ⟨between, later, rest, heq, -, -⟩ :=
      h [.event (.request .reboot .start)] .reset [.cancelled] rfl
    · simp at hmem
    · cases hsome
    · cases between with
      | nil => cases heq
      | cons x between => simp at heq
  · intro h
    have hlog : (Desk.run forgottenReset).log = [.event (.request .reboot .start), promise .reset,
        .cancelled, .event (.request .reboot .start), .started, .event (.current false),
        .event (.beginReboot true), .event .restart] := rfl
    have hstate : (Desk.run forgottenReset).state.requested = some .reboot := rfl
    obtain ⟨erasure, -, hmem⟩ | ⟨requested, hsome, hle⟩ | ⟨between, later, rest, heq, hle, -⟩ :=
      h [.event (.request .reboot .start)] .reset _ hlog
    · simp at hmem
    · rw [hstate] at hsome
      cases hsome
      exact absurd hle (by decide)
    · -- the only later `Start` is one of a reboot
      have hmem : .event (.request later .start) ∈ [DeskEvent.cancelled,
          .event (.request .reboot .start), .started, .event (.current false),
          .event (.beginReboot true), .event .restart] := by
        rw [heq]
        simp
      have hlater : later = .reboot := by simpa using hmem
      rw [hlater] at hle
      exact absurd hle (by decide)

end WhatsappEsp32
