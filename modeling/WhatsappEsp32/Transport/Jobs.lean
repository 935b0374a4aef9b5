import WhatsappEsp32.Transport.Steps

/-!
# The write jobs

What the socket thread and the callers of `send` do with the jobs, as a machine of its own: a queue
with a completion for each job.  Every step of the system is a move of this machine.

* `Jobs`, `Jobs.Move`: the queue, the job being written, the completions;
* `Steps.jobs`: the system moves as the machine does;
* `Jobs.Ok`, `Jobs.Move.ok`: jobs are written in the order in which they were queued, a completion
  says what became of its job, and what a call returns is what its completion says.
-/

namespace WhatsappEsp32.Transport

open CrashLogic RustIo Ws Trace

variable {A : Arch} {hasPsram : Bool}

/-! ### The machine -/

/-- The jobs of a connection. -/
structure Jobs where
  /-- The thread still takes jobs. -/
  isOpen : Bool
  queue : List WriteJob
  /-- The job being written. -/
  taken : Option WriteJob
  /-- The job that was written, before its completion is sent. -/
  done : Option (WriteJob × Except IoError Unit)
  calls : ℕ
  waiting : List ℕ
  results : ℕ → Option Completion

/-- The events that are not about jobs. -/
def Event.isSilent : Event → Bool
  | .wrote _ (.pong _) _ _ | .wrote _ .close _ _ => true
  | .read _ | .blocked | .emitted _ | .received _ => true
  | _ => false

/-- What can become of the jobs, and the events of it. -/
inductive Jobs.Move : Jobs → List Event → Jobs → Prop
  | idle (j : Jobs) (es : List Event) (h : ∀ e ∈ es, e.isSilent = true) : Move j es j
  | enqueue (j : Jobs) (data : Bytes) (fits : data.length < 2 ^ 63) (h : j.isOpen = true) :
      Move j [.enqueued ⟨j.calls, data, fits⟩] { j with
        calls := j.calls + 1
        waiting := j.waiting ++ [j.calls]
        queue := j.queue ++ [⟨j.calls, data, fits⟩] }
  | refuse (j : Jobs) (e : SendError) (h : ∀ e', e ≠ .write e') (h' : e ≠ .stopped) :
      Move j [.returned j.calls (.error e)] { j with calls := j.calls + 1 }
  | take (j : Jobs) (job : WriteJob) (queue : List WriteJob) (h : j.queue = job :: queue)
      (htaken : j.taken = none) : Move j [] { j with queue := queue, taken := some job }
  | write (j : Jobs) (job : WriteJob) (mask : Mask) (bytes : Bytes) (result : Except IoError Unit)
      (h : j.taken = some job) (hdone : j.done = none)
      (hsent : Sent (clientFrame mask opBinary job.data) bytes result) :
      Move j [.wrote mask (.data job) bytes result]
        { j with taken := none, done := some (job, result) }
  | report (j : Jobs) (job : WriteJob) (result : Except IoError Unit)
      (h : j.done = some (job, result)) :
      Move j [] { j with
        done := none
        results := Function.update j.results job.id (some (.finished result)) }
  | drop (j : Jobs) (h : j.isOpen = true) (htaken : j.taken = none) (hdone : j.done = none) :
      Move j [.dropped j.queue] { j with
        isOpen := false
        queue := []
        results := fun id =>
          if id ∈ j.queue.map WriteJob.id then some .cancelled else j.results id }
  | resume (j : Jobs) (id : ℕ) (completion : Completion) (h : id ∈ j.waiting)
      (hresult : j.results id = some completion) :
      Move j [.returned id completion.result] { j with waiting := j.waiting.erase id }

/-! ### The system moves as the machine does -/

/-- The job that the thread is about to write. -/
def Pc.taken : Pc → Option WriteJob
  | write job => some job
  | _ => none

/-- The job whose completion is due, with its result. -/
def Pc.done : Pc → Option (WriteJob × Except IoError Unit)
  | written job result => some (job, result)
  | _ => none

/-- Everything about the jobs that the place of the thread says. -/
def Pc.view (pc : Pc) : Bool × Option WriteJob × Option (WriteJob × Except IoError Unit) :=
  (pc.holdsQueue, pc.taken, pc.done)

/-- The jobs of a state. -/
def State.jobs (s : State A) : Jobs where
  isOpen := s.pc.view.1
  queue := s.queue
  taken := s.pc.view.2.1
  done := s.pc.view.2.2
  calls := s.calls
  waiting := s.waiting
  results := s.results

/-- The jobs of `s` move to those of `s'`, and the log grows by the events of it. -/
def JobStep (s s' : State A) : Prop := ∃ es, s'.log = s.log ++ es ∧ s.jobs.Move es s'.jobs

/-- A step that is not about jobs. -/
theorem jobStep_idle {s s' : State A} (es : List Event) (hlog : s'.log = s.log ++ es)
    (hjobs : s'.jobs = s.jobs) (h : ∀ e ∈ es, e.isSilent = true) : JobStep s s' := by
  refine ⟨es, hlog, ?_⟩
  rw [hjobs]
  exact .idle _ es h

theorem Goes.view {s : State A} {pc : Pc} (h : Goes s pc) : pc.view = s.pc.view := by
  cases h <;> simp [*, Pc.view, Pc.holdsQueue, Pc.taken, Pc.done]

theorem Emits.view {pc pc' : Pc} {event : TransportEvent} (h : Emits pc event pc') :
    pc'.view = pc.view := by
  cases h <;> rfl

theorem Drops.view {pc pc' : Pc} (h : Drops pc pc') :
    pc.view = (true, none, none) ∧ pc'.view = (false, none, none) := by
  cases h <;> exact ⟨rfl, rfl⟩

theorem afterReport_view (result : Except IoError Unit) :
    (State.afterReport result).view = (true, none, none) := by
  rcases result with e | _ <;> rfl

theorem handleFrame_view (frame : Option Frame) :
    (State.handleFrame frame).view = (true, none, none) := by
  rcases frame with _ | _ | _ | _ | _ | _ | ⟨code, reason⟩ <;> rfl

/-- Sending a frame: a job is written, or the jobs are left alone. -/
theorem jobStep_sends {s : State A} {mask : Mask} {what : Outgoing} {bytes : Bytes}
    {result : Except IoError Unit} {sink : Sink} {pc : Pc} (h : Sends s.pc what result pc)
    (hsent : Sent (what.frame mask) bytes result) :
    JobStep s { s with
      sink := sink, pc := pc, log := s.log ++ [.wrote mask what bytes result] } := by
  cases hpc : s.pc <;> rw [hpc] at h <;> cases h
  case write job =>
    refine ⟨[.wrote mask (.data job) bytes result], rfl, ?_⟩
    have hmove := Jobs.Move.write s.jobs job mask bytes result (by simp only [State.jobs, hpc]; rfl)
      (by simp only [State.jobs, hpc]; rfl) hsent
    simp only [State.jobs, hpc] at hmove ⊢
    exact hmove
  all_goals
    refine jobStep_idle [_] rfl ?_ (by simp [Event.isSilent])
    simp only [State.jobs, hpc]
    rfl

/-- Every action of the thread is a move of the jobs. -/
theorem jobStep_acts {s s' : State A} {mask : Mask} (h : Acts hasPsram mask s s') :
    JobStep s s' := by
  cases h with
  | goes pc h => exact jobStep_idle [] (by simp) (by simp only [State.jobs, h.view]) (by simp)
  | emits event pc h =>
    exact jobStep_idle [.emitted event] rfl (by simp only [State.jobs, State.emit, h.view])
      (by simp [Event.isSilent])
  | sends what bytes result sink pc h hsent => exact jobStep_sends h hsent
  | take job queue hpc hqueue =>
    refine ⟨[], (List.append_nil _).symm, ?_⟩
    have hmove := Jobs.Move.take s.jobs job queue hqueue (by simp only [State.jobs, hpc]; rfl)
    simp only [State.jobs, hpc] at hmove ⊢
    exact hmove
  | report job result hpc =>
    refine ⟨[], (List.append_nil _).symm, ?_⟩
    have hmove := Jobs.Move.report s.jobs job result (by simp only [State.jobs, hpc]; rfl)
    simp only [State.jobs, hpc, afterReport_view] at hmove ⊢
    exact hmove
  | drops pc h =>
    obtain ⟨hview, hview'⟩ := h.view
    refine ⟨[.dropped s.queue], rfl, ?_⟩
    have hmove := Jobs.Move.drop s.jobs (congrArg Prod.fst hview) (congrArg (·.2.1) hview)
      (congrArg (·.2.2) hview)
    simpa only [State.jobs, hview, hview'] using hmove
  | approach hpc => exact jobStep_idle [] (by simp) (by simp only [State.jobs, hpc]; rfl) (by simp)
  | closed event hpc =>
    exact jobStep_idle [] (by simp) (by simp only [State.jobs, hpc]; rfl) (by simp)
  | blocked event hpc =>
    exact jobStep_idle [.blocked] rfl (by simp only [State.jobs, hpc]; rfl)
      (by simp [Event.isSilent])
  | forwards event hpc =>
    exact jobStep_idle [.emitted event] rfl (by simp only [State.jobs, State.emit, hpc]; rfl)
      (by simp [Event.isSilent])
  | reads frame client hpc =>
    -- what is read has nothing to do with the jobs
    exact jobStep_idle [.read (.ok frame)] rfl
      (by simp only [State.jobs, hpc, handleFrame_view]; rfl) (by simp [Event.isSilent])
  | readFails e client hpc =>
    exact jobStep_idle [.read (.error e)] rfl (by simp only [State.jobs, hpc]; rfl)
      (by simp [Event.isSilent])
  | dropPending reason hpc =>
    exact jobStep_idle [] (by simp) (by simp only [State.jobs, hpc]; rfl) (by simp)

/-- Every step of the system is a move of the jobs. -/
theorem Steps.jobs {s s' : State A} (h : Steps hasPsram s s') : JobStep s s' := by
  cases h with
  | thread mask _ h => exact jobStep_acts h
  | refuse e h =>
    refine ⟨[.returned s.calls (.error e)], rfl, .refuse s.jobs e ?_ ?_⟩
    · rcases h with rfl | rfl <;> exact nofun
    · rcases h with rfl | rfl <;> exact nofun
  | enqueue data fits hopen =>
    exact ⟨[.enqueued ⟨s.calls, data, fits⟩], rfl, .enqueue s.jobs data fits hopen⟩
  | complete id completion hwaiting hresult =>
    exact ⟨[.returned id completion.result], rfl, .resume s.jobs id completion hwaiting hresult⟩
  | disconnect => exact jobStep_idle [] (by simp) rfl (by simp)
  | receive event => exact jobStep_idle [.received event] rfl rfl (by simp [Event.isSilent])
  | stopListening => exact jobStep_idle [] (by simp) rfl (by simp)

/-! ### What the log says about jobs -/

/-- The job that a sender puts into the queue. -/
def Event.enqueued? : Event → Option WriteJob
  | .enqueued job => some job
  | _ => none

/-- The job that the thread has written. -/
def Event.written? : Event → Option WriteJob
  | .wrote _ (.data job) _ _ => some job
  | _ => none

/-- The jobs that go with the queue. -/
def Event.droppedJobs : Event → List WriteJob
  | .dropped jobs => jobs
  | _ => []

/-- The jobs that were queued, in order. -/
def enqueuedJobs (log : List Event) : List WriteJob := log.filterMap Event.enqueued?

/-- The jobs for which `send_binary` was called, in order. -/
def writtenJobs (log : List Event) : List WriteJob := log.filterMap Event.written?

/-- The jobs that were dropped with the queue. -/
def droppedJobs (log : List Event) : List WriteJob := log.flatMap Event.droppedJobs

@[simp] theorem enqueuedJobs_append (log es : List Event) :
    enqueuedJobs (log ++ es) = enqueuedJobs log ++ enqueuedJobs es := List.filterMap_append ..

@[simp] theorem writtenJobs_append (log es : List Event) :
    writtenJobs (log ++ es) = writtenJobs log ++ writtenJobs es := List.filterMap_append ..

@[simp] theorem droppedJobs_append (log es : List Event) :
    droppedJobs (log ++ es) = droppedJobs log ++ droppedJobs es := List.flatMap_append ..

theorem silent_jobs {es : List Event} (h : ∀ e ∈ es, e.isSilent = true) :
    enqueuedJobs es = [] ∧ writtenJobs es = [] ∧ droppedJobs es = [] := by
  have hsilent : ∀ e : Event, e.isSilent = true →
      e.enqueued? = none ∧ e.written? = none ∧ e.droppedJobs = [] := by
    intro e he
    cases e with
    | wrote mask what bytes result => cases what <;> first | exact ⟨rfl, rfl, rfl⟩ | cases he
    | enqueued | dropped | returned => cases he
    | read | blocked | emitted | received => exact ⟨rfl, rfl, rfl⟩
  refine ⟨List.filterMap_eq_nil_iff.mpr fun e he => (hsilent e (h e he)).1,
    List.filterMap_eq_nil_iff.mpr fun e he => (hsilent e (h e he)).2.1,
    List.flatMap_eq_nil_iff.mpr fun e he => (hsilent e (h e he)).2.2⟩

/-- What a call of `send` may return, given what happened before: success after its frame was
written and flushed as a whole, and `stopped` after its job was dropped. -/
def Truthful (past : List Event) : Event → Prop
  | .returned id (.ok ()) => ∃ job mask, job.id = id ∧
    .wrote mask (.data job) (clientFrame mask opBinary job.data) (.ok ()) ∈ past
  | .returned id (.error .stopped) => ∃ job ∈ droppedJobs past, job.id = id
  | .returned id (.error (.write e)) => ∃ job mask bytes, job.id = id ∧
    .wrote mask (.data job) bytes (.error e) ∈ past
  | _ => True

/-! ### The invariant -/

/-- The jobs agree with the log. -/
structure Jobs.Ok (j : Jobs) (log : List Event) : Prop where
  fifo : enqueuedJobs log = writtenJobs log ++ j.taken.toList ++ j.queue ++ droppedJobs log
  undropped : j.isOpen = true → droppedJobs log = []
  closed : j.isOpen = false → j.queue = [] ∧ j.taken = none ∧ j.done = none
  nodup : ((enqueuedJobs log).map WriteJob.id).Nodup
  fresh : ∀ job ∈ enqueuedJobs log, job.id < j.calls
  sent : ∀ mask job bytes result, .wrote mask (.data job) bytes result ∈ log →
    Sent (clientFrame mask opBinary job.data) bytes result
  done : ∀ job result, j.done = some (job, result) →
    ∃ mask bytes, .wrote mask (.data job) bytes result ∈ log
  finished : ∀ id result, j.results id = some (.finished result) →
    ∃ job mask bytes, job.id = id ∧ .wrote mask (.data job) bytes result ∈ log
  cancelled : ∀ id, j.results id = some .cancelled → ∃ job ∈ droppedJobs log, job.id = id
  unresolved : ∀ job ∈ enqueuedJobs log, j.results job.id = none →
    job ∈ j.queue ∨ j.taken = some job ∨ ∃ result, j.done = some (job, result)
  waiting : ∀ id ∈ j.waiting, ∃ job ∈ enqueuedJobs log, job.id = id
  truthful : Always Truthful log

namespace Jobs.Ok

variable {j : Jobs} {log : List Event}

/-- Events that are not about jobs. -/
theorem idle (h : j.Ok log) {es : List Event} (hes : ∀ e ∈ es, e.isSilent = true) :
    j.Ok (log ++ es) := by
  obtain ⟨henqueued, hwritten, hdropped⟩ := silent_jobs hes
  have hwrote : ∀ {mask job bytes result}, .wrote mask (.data job) bytes result ∈ log ++ es →
      .wrote mask (.data job) bytes result ∈ log := by
    intro mask job bytes result hmem
    rcases List.mem_append.mp hmem with hmem | hmem
    · exact hmem
    · exact nomatch hes _ hmem
  have htruthful : Always Truthful (log ++ es) := by
    clear henqueued hwritten hdropped hwrote
    induction es using List.reverseRecOn with
    | nil => simpa using h.truthful
    | append_singleton es e ih =>
      rw [← List.append_assoc, always_append_singleton]
      refine ⟨ih fun e' he' => hes e' (List.mem_append_left _ he'), ?_⟩
      have he := hes e (by simp)
      cases e with
      | returned id result => cases he
      | _ => trivial
  refine ⟨?_, ?_, h.closed, ?_, ?_, ?_, ?_, ?_, ?_, ?_, ?_, htruthful⟩
  · simpa [henqueued, hwritten, hdropped] using h.fifo
  · simpa [hdropped] using h.undropped
  · simpa [henqueued] using h.nodup
  · simpa [henqueued] using h.fresh
  · exact fun mask job bytes result hmem => h.sent mask job bytes result (hwrote hmem)
  · intro job result hdone
    obtain ⟨mask, bytes, hmem⟩ := h.done job result hdone
    exact ⟨mask, bytes, List.mem_append_left _ hmem⟩
  · intro id result hresult
    obtain ⟨job, mask, bytes, hid, hmem⟩ := h.finished id result hresult
    exact ⟨job, mask, bytes, hid, List.mem_append_left _ hmem⟩
  · simpa [hdropped] using h.cancelled
  · simpa [henqueued] using h.unresolved
  · simpa [henqueued] using h.waiting

theorem enqueue (h : j.Ok log) (data : Bytes) (fits : data.length < 2 ^ 63)
    (hopen : j.isOpen = true) :
    Ok { j with
      calls := j.calls + 1
      waiting := j.waiting ++ [j.calls]
      queue := j.queue ++ [⟨j.calls, data, fits⟩] } (log ++ [.enqueued ⟨j.calls, data, fits⟩]) := by
  have henqueued : enqueuedJobs [.enqueued ⟨j.calls, data, fits⟩] = [⟨j.calls, data, fits⟩] := rfl
  have hwritten : writtenJobs [.enqueued ⟨j.calls, data, fits⟩] = [] := rfl
  have hdropped : droppedJobs [.enqueued ⟨j.calls, data, fits⟩] = [] := rfl
  have hundropped := h.undropped hopen
  refine ⟨?_, ?_, ?_, ?_, ?_, ?_, ?_, ?_, ?_, ?_, ?_, ?_⟩
  · simp [henqueued, hwritten, hdropped, h.fifo, hundropped]
  · simpa [hdropped] using h.undropped
  · intro hclosed
    cases hclosed.symm.trans hopen
  · -- the number of a call is new
    have hnotMem : j.calls ∉ (enqueuedJobs log).map WriteJob.id := by
      intro hmem
      obtain ⟨job, hjob, hid⟩ := List.mem_map.mp hmem
      exact (h.fresh job hjob).ne hid
    rw [enqueuedJobs_append, henqueued, List.map_append]
    exact h.nodup.append (by simp) (by simpa using hnotMem)
  · intro job hjob
    rw [enqueuedJobs_append, henqueued] at hjob
    rcases List.mem_append.mp hjob with hjob | hjob
    · exact Nat.lt_succ_of_lt (h.fresh job hjob)
    · obtain rfl := List.mem_singleton.mp hjob
      exact Nat.lt_succ_self _
  · intro mask job bytes result hmem
    exact h.sent mask job bytes result (by simpa using hmem)
  · simpa using h.done
  · simpa using h.finished
  · simpa [hdropped] using h.cancelled
  · intro job hjob hnone
    rw [enqueuedJobs_append, henqueued] at hjob
    rcases List.mem_append.mp hjob with hjob | hjob
    · rcases h.unresolved job hjob hnone with hqueue | hrest
      · exact Or.inl (List.mem_append_left _ hqueue)
      · exact Or.inr hrest
    · exact Or.inl (List.mem_append_right _ hjob)
  · intro id hid
    rw [enqueuedJobs_append, henqueued]
    rcases List.mem_append.mp hid with hid | hid
    · obtain ⟨job, hjob, heq⟩ := h.waiting id hid
      exact ⟨job, List.mem_append_left _ hjob, heq⟩
    · obtain rfl := List.mem_singleton.mp hid
      exact ⟨_, List.mem_append_right _ (List.mem_singleton_self _), rfl⟩
  · exact always_append_singleton.mpr ⟨h.truthful, trivial⟩

/-- A call returns, at once or after its completion. -/
theorem returned (h : j.Ok log) {id : ℕ} {result : Except SendError Unit} {calls : ℕ}
    {waiting : List ℕ} (hcalls : j.calls ≤ calls) (hwaiting : waiting ⊆ j.waiting)
    (htruthful : Truthful log (.returned id result)) :
    Ok { j with calls := calls, waiting := waiting } (log ++ [.returned id result]) := by
  have henqueued : enqueuedJobs [.returned id result] = [] := rfl
  have hwritten : writtenJobs [.returned id result] = [] := rfl
  have hdropped : droppedJobs [.returned id result] = [] := rfl
  refine ⟨?_, ?_, h.closed, ?_, ?_, ?_, ?_, ?_, ?_, ?_, ?_, ?_⟩
  · simpa [henqueued, hwritten, hdropped] using h.fifo
  · simpa [hdropped] using h.undropped
  · simpa [henqueued] using h.nodup
  · intro job hjob
    exact (h.fresh job (by simpa [henqueued] using hjob)).trans_le hcalls
  · intro mask job bytes result hmem
    exact h.sent mask job bytes result (by simpa using hmem)
  · simpa using h.done
  · simpa using h.finished
  · simpa [hdropped] using h.cancelled
  · simpa [henqueued] using h.unresolved
  · intro id hid
    simpa [henqueued] using h.waiting id (hwaiting hid)
  · exact always_append_singleton.mpr ⟨h.truthful, htruthful⟩

/-- A completion says what became of its job. -/
theorem truthful_result (h : j.Ok log) {id : ℕ} {completion : Completion}
    (hresult : j.results id = some completion) :
    Truthful log (.returned id completion.result) := by
  cases completion with
  | finished result =>
    obtain ⟨job, mask, bytes, hid, hmem⟩ := h.finished id result hresult
    cases result with
    | ok =>
      rw [(h.sent mask job bytes _ hmem).whole rfl] at hmem
      exact ⟨job, mask, hid, hmem⟩
    | error e => exact ⟨job, mask, bytes, hid, hmem⟩
  | cancelled => exact h.cancelled id hresult

theorem take (h : j.Ok log) {job : WriteJob} {queue : List WriteJob} (hqueue : j.queue = job :: queue)
    (htaken : j.taken = none) : Ok { j with queue := queue, taken := some job } log := by
  refine { h with fifo := ?_, closed := ?_, unresolved := ?_ }
  · simpa [hqueue, htaken] using h.fifo
  · intro hclosed
    obtain ⟨hnil, -⟩ := h.closed hclosed
    exact nomatch hqueue.symm.trans hnil
  · intro job' hjob hnone
    rcases h.unresolved job' hjob hnone with hmem | hrest | hrest
    · rw [hqueue] at hmem
      rcases List.mem_cons.mp hmem with rfl | hmem
      · exact Or.inr (Or.inl rfl)
      · exact Or.inl hmem
    · exact nomatch htaken.symm.trans hrest
    · exact Or.inr (Or.inr hrest)

theorem write (h : j.Ok log) {job : WriteJob} {mask : Mask} {bytes : Bytes}
    {result : Except IoError Unit} (htaken : j.taken = some job) (hdone : j.done = none)
    (hsent : Sent (clientFrame mask opBinary job.data) bytes result) :
    Ok { j with taken := none, done := some (job, result) }
      (log ++ [.wrote mask (.data job) bytes result]) := by
  have henqueued : enqueuedJobs [.wrote mask (.data job) bytes result] = [] := rfl
  have hwritten : writtenJobs [.wrote mask (.data job) bytes result] = [job] := rfl
  have hdropped : droppedJobs [.wrote mask (.data job) bytes result] = [] := rfl
  refine ⟨?_, ?_, ?_, ?_, ?_, ?_, ?_, ?_, ?_, ?_, ?_, ?_⟩
  · simpa [henqueued, hwritten, hdropped, htaken] using h.fifo
  · simpa [hdropped] using h.undropped
  · intro hclosed
    obtain ⟨-, hnone, -⟩ := h.closed hclosed
    exact nomatch htaken.symm.trans hnone
  · simpa [henqueued] using h.nodup
  · simpa [henqueued] using h.fresh
  · intro mask' job' bytes' result' hmem
    rcases List.mem_append.mp hmem with hmem | hmem
    · exact h.sent mask' job' bytes' result' hmem
    · cases List.mem_singleton.mp hmem
      exact hsent
  · intro job' result' heq
    cases heq
    exact ⟨mask, bytes, by simp⟩
  · intro id result' hresult
    obtain ⟨job', mask', bytes', hid, hmem⟩ := h.finished id result' hresult
    exact ⟨job', mask', bytes', hid, List.mem_append_left _ hmem⟩
  · simpa [hdropped] using h.cancelled
  · intro job' hjob hnone
    rcases h.unresolved job' (by simpa [henqueued] using hjob) hnone with hmem | hmem | ⟨r, hmem⟩
    · exact Or.inl hmem
    · rw [htaken] at hmem
      cases hmem
      exact Or.inr (Or.inr ⟨result, rfl⟩)
    · exact nomatch hdone.symm.trans hmem
  · simpa [henqueued] using h.waiting
  · exact always_append_singleton.mpr ⟨h.truthful, trivial⟩

theorem report (h : j.Ok log) {job : WriteJob} {result : Except IoError Unit}
    (hdone : j.done = some (job, result)) :
    Ok { j with
      done := none
      results := Function.update j.results job.id (some (.finished result)) } log := by
  refine { h with closed := ?_, done := nofun, finished := ?_, cancelled := ?_, unresolved := ?_ }
  · intro hclosed
    obtain ⟨-, -, hnone⟩ := h.closed hclosed
    exact nomatch hdone.symm.trans hnone
  · intro id result' hresult
    by_cases hid : id = job.id
    · subst hid
      simp only [Function.update_self, Option.some.injEq, Completion.finished.injEq] at hresult
      subst hresult
      obtain ⟨mask, bytes, hmem⟩ := h.done job result hdone
      exact ⟨job, mask, bytes, rfl, hmem⟩
    · simp only [Function.update_of_ne hid] at hresult
      exact h.finished id result' hresult
  · intro id hresult
    by_cases hid : id = job.id
    · subst hid
      simp at hresult
    · simp only [Function.update_of_ne hid] at hresult
      exact h.cancelled id hresult
  · intro job' hjob hnone
    have hid : job'.id ≠ job.id := by
      intro hid
      rw [hid] at hnone
      simp at hnone
    simp only [Function.update_of_ne hid] at hnone
    rcases h.unresolved job' hjob hnone with hmem | hmem | ⟨r, hmem⟩
    · exact Or.inl hmem
    · exact Or.inr (Or.inl hmem)
    · rw [hdone] at hmem
      cases hmem
      exact absurd rfl hid

theorem drop (h : j.Ok log) (hopen : j.isOpen = true) (htaken : j.taken = none)
    (hdone : j.done = none) :
    Ok { j with
      isOpen := false
      queue := []
      results := fun id =>
        if id ∈ j.queue.map WriteJob.id then some .cancelled else j.results id }
      (log ++ [.dropped j.queue]) := by
  have henqueued : enqueuedJobs [.dropped j.queue] = [] := rfl
  have hwritten : writtenJobs [.dropped j.queue] = [] := rfl
  have hdropped : droppedJobs [.dropped j.queue] = j.queue := List.append_nil _
  refine ⟨?_, nofun, fun _ => ⟨rfl, htaken, hdone⟩, ?_, ?_, ?_, ?_, ?_, ?_, ?_, ?_, ?_⟩
  · simpa [henqueued, hwritten, hdropped, h.undropped hopen] using h.fifo
  · simpa [henqueued] using h.nodup
  · simpa [henqueued] using h.fresh
  · intro mask job bytes result hmem
    exact h.sent mask job bytes result (by simpa using hmem)
  · simp [hdone]
  · intro id result hresult
    simp only at hresult
    split_ifs at hresult with hmem
    · cases hresult
    · obtain ⟨job, mask, bytes, hid, hmem⟩ := h.finished id result hresult
      exact ⟨job, mask, bytes, hid, List.mem_append_left _ hmem⟩
  · intro id hresult
    rw [droppedJobs_append, hdropped]
    simp only at hresult
    split_ifs at hresult with hmem
    · obtain ⟨job, hjob, hid⟩ := List.mem_map.mp hmem
      exact ⟨job, List.mem_append_right _ hjob, hid⟩
    · obtain ⟨job, hjob, hid⟩ := h.cancelled id hresult
      exact ⟨job, List.mem_append_left _ hjob, hid⟩
  · intro job hjob hnone
    simp only at hnone
    split_ifs at hnone with hmem
    -- a job without a completion was in the queue, for none was taken or written
    rcases h.unresolved job (by simpa [henqueued] using hjob) hnone with hqueue | hrest | ⟨r, hrest⟩
    · exact absurd (List.mem_map_of_mem hqueue) hmem
    · exact nomatch htaken.symm.trans hrest
    · exact nomatch hdone.symm.trans hrest
  · simpa [henqueued] using h.waiting
  · exact always_append_singleton.mpr ⟨h.truthful, trivial⟩

/-- Every move keeps the jobs in agreement with the log. -/
theorem move (h : j.Ok log) {es : List Event} {j' : Jobs} (hmove : j.Move es j') :
    j'.Ok (log ++ es) := by
  cases hmove with
  | idle _ hes => exact h.idle hes
  | enqueue data fits hopen => exact h.enqueue data fits hopen
  | refuse e hwrite hstopped =>
    refine h.returned (Nat.le_succ _) (List.Subset.refl _) ?_
    cases e with
    | queueFull | closed => trivial
    | stopped => exact absurd rfl hstopped
    | write e => exact absurd rfl (hwrite e)
  | take job queue hqueue htaken =>
    rw [List.append_nil]
    exact h.take hqueue htaken
  | write job mask bytes result htaken hdone hsent => exact h.write htaken hdone hsent
  | report job result hdone =>
    rw [List.append_nil]
    exact h.report hdone
  | drop hopen htaken hdone => exact h.drop hopen htaken hdone
  | resume id completion hwaiting hresult =>
    exact h.returned le_rfl List.erase_subset (h.truthful_result hresult)

end Jobs.Ok

/-- A new connection has no jobs. -/
theorem jobs_start (failure : Option ConnectFailure) (client : WsClient A) (sink : Sink) :
    (State.start failure client sink).jobs.Ok (State.start failure client sink).log where
  fifo := rfl
  undropped _ := rfl
  closed h := nomatch h
  nodup := List.nodup_nil
  fresh := nofun
  sent := nofun
  done := nofun
  finished := nofun
  cancelled := nofun
  unresolved := nofun
  waiting := nofun
  truthful := always_nil

end WhatsappEsp32.Transport
