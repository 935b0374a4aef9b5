import WhatsappEsp32.Transport.Delivery
import WhatsappEsp32.Ws.Safety

/-!
# Who waits for whom

A caller of `send` waits for the socket thread, and the socket thread may wait for the consumer to
make room in the channel.  The consumer may itself be such a caller, so the thread must never wait
for room while a completion is outstanding, and it must go on writing while it holds a message that
it cannot forward.

* `State.Blocked`: the thread waits in `send_blocking`;
* `Served`: every job that was queued when a message could not be forwarded has been written;
* `no_circular_wait`: what holds of every run;
* `waits_only_for_room`: the thread of a connected client waits nowhere else.
-/

namespace WhatsappEsp32.Transport

open RustIo Ws Trace

variable {A : Arch} {hasPsram : Bool} {s s' : State A}

variable (hasPsram) in
/-- The thread waits in `send_blocking` for room in the channel. -/
def State.Blocked (s : State A) : Prop :=
  ∃ event pc, Emits s.pc event pc ∧ s.sendBlocking hasPsram event pc = none

/-! ### Waiting for room -/

theorem sendBlocking_eq_none {event : TransportEvent} {pc : Pc}
    (h : s.sendBlocking hasPsram event pc = none) :
    s.listening = true ∧ s.full hasPsram = true := by
  unfold State.sendBlocking at h
  split_ifs at h with hfull
  simpa using hfull

/-- The first event of a connection does not wait: the channel is empty. -/
theorem Mailbox.Agrees.channel_nil {m : Mailbox} {log : List Event} {forwarded : List Bytes}
    {held lost : Option Bytes} (h : m.Agrees log forwarded held lost) (hphase : m.phase = .opening)
    (hlistening : m.listening = true) : m.channel = [] := by
  have hshape := h.shape
  rw [hphase] at hshape
  have hall := h.channel hlistening
  rw [hshape.1] at hall
  exact (List.append_eq_nil_iff.mp hall).2

/-- A thread that waits for room has dropped the queue. -/
theorem State.Blocked.dropped (h : s.Blocked hasPsram) (hok : s.Ok) : s.pc.holdsQueue = false := by
  obtain ⟨event, pc, hemits, hnone⟩ := h
  obtain ⟨hlistening, hfull⟩ := sendBlocking_eq_none hnone
  obtain ⟨forwarded, held, lost, hagrees⟩ := hok.mailbox
  have hopening : s.pc.phase ≠ .opening := by
    intro hphase
    have hnil : s.channel = [] := hagrees.channel_nil hphase hlistening
    cases hasPsram <;> simp [State.full, channelCap, hnil] at hfull
  cases hpc : s.pc <;> rw [hpc] at hemits hopening <;> cases hemits
  case refuse reason => exact absurd rfl hopening
  case announce => exact absurd rfl hopening
  case disconnect reason => rfl

/-- Once the queue is dropped, every completion is there. -/
theorem Jobs.Ok.resolved {j : Jobs} {log : List Event} (h : j.Ok log) (hopen : j.isOpen = false) :
    (∀ id ∈ j.waiting, j.results id ≠ none) ∧
      ∀ job ∈ enqueuedJobs log, job ∈ writtenJobs log ∨ job ∈ droppedJobs log := by
  obtain ⟨hqueue, htaken, hdone⟩ := h.closed hopen
  constructor
  · intro id hid hnone
    obtain ⟨job, hjob, rfl⟩ := h.waiting id hid
    rcases h.unresolved job hjob hnone with hmem | hmem | ⟨result, hmem⟩
    · rw [hqueue] at hmem
      cases hmem
    · exact nomatch htaken.symm.trans hmem
    · exact nomatch hdone.symm.trans hmem
  · intro job hjob
    rw [h.fifo, hqueue, htaken] at hjob
    simpa using hjob

/-! ### Writing while a message is held back -/

/-- Every job that was in the queue when a message could not be forwarded has been written. -/
def Served (log : List Event) : Prop :=
  ∀ before after, log = before ++ .blocked :: after → enqueuedJobs before ⊆ writtenJobs log

/-- Before the thread looks at the socket, it has written these jobs. -/
def ServedBeforeRead (past : List Event) : Event → Prop
  | .read _ => Served past
  | _ => True

theorem Served.append {log : List Event} (h : Served log) {e : Event} (he : e ≠ .blocked) :
    Served (log ++ [e]) := by
  intro before after heq job hjob
  rw [writtenJobs_append]
  refine List.mem_append_left _ ?_
  cases after using List.reverseRecOn with
  | nil =>
    have hlast := (List.append_inj' heq rfl).2
    exact absurd (List.head_eq_of_cons_eq hlast) he
  | append_singleton after x =>
    rw [← List.cons_append, ← List.append_assoc] at heq
    exact h before after (List.append_inj' heq rfl).1 hjob

/-- With an empty queue, every job has been written. -/
theorem Jobs.Ok.served {j : Jobs} {log : List Event} (h : j.Ok log) (hopen : j.isOpen = true)
    (hqueue : j.queue = []) (htaken : j.taken = none) : Served log := by
  intro before after heq job hjob
  have hall : enqueuedJobs log = writtenJobs log := by
    rw [h.fifo, hqueue, htaken, h.undropped hopen]
    simp
  rw [← hall, heq, enqueuedJobs_append]
  exact List.mem_append_left _ hjob

/-- Between the moment when the queue was found empty and the read. -/
def Pc.looks : Pc → Bool
  | forward | read => true
  | _ => false

/-- Where the thread looks at the socket every earlier job has been served, as at every read so
far. -/
structure LooksOk (s : State A) : Prop where
  served : s.pc.looks = true → Served s.log
  reads : Always ServedBeforeRead s.log

theorem handleFrame_looks (frame : Option Frame) : (State.handleFrame frame).looks = false := by
  rcases frame with _ | _ | _ | _ | _ | _ | ⟨code, reason⟩ <;> rfl

/-- A thread that is not about to read only has its log to answer for. -/
theorem LooksOk.away (hpc : s.pc.looks = false) (hreads : Always ServedBeforeRead s.log) :
    LooksOk s := by
  refine ⟨fun hlooks => ?_, hreads⟩
  rw [hpc] at hlooks
  cases hlooks

theorem LooksOk.acts (h : LooksOk s) (hjobs : s.jobs.Ok s.log) {mask : Mask}
    (hacts : Acts hasPsram mask s s') : LooksOk s' := by
  have hlooks : ∀ {pc : Pc}, pc.looks = true → s.pc = pc → Served s.log :=
    fun hpc hs => h.served (hs ▸ hpc)
  cases hacts with
  | goes pc hgoes =>
    refine ⟨fun hpc => ?_, h.reads⟩
    cases hgoes with
    | drained hdrain hqueue =>
      -- the queue is empty and no job is in the hands of the thread
      exact hjobs.served (by simp only [State.jobs, hdrain]; rfl) hqueue
        (by simp only [State.jobs, hdrain]; rfl)
    | connect | fail | shut | drain => cases hpc
  | emits event pc hemits =>
    refine ⟨fun hpc => ?_, always_append_singleton.mpr ⟨h.reads, trivial⟩⟩
    generalize s.pc = pc₀ at hemits
    cases hemits <;> cases hpc
  | sends what bytes result sink pc hsends =>
    refine ⟨fun hpc => ?_, always_append_singleton.mpr ⟨h.reads, trivial⟩⟩
    generalize s.pc = pc₀ at hsends
    cases hsends <;> cases hpc
  | take job queue => exact .away rfl h.reads
  | report job result =>
    refine ⟨fun hpc => ?_, h.reads⟩
    rcases result with e | _ <;> cases hpc
  | drops pc hdrops =>
    refine ⟨fun hpc => ?_, always_append_singleton.mpr ⟨h.reads, trivial⟩⟩
    generalize s.pc = pc₀ at hdrops
    cases hdrops <;> cases hpc
  | approach hpc => exact ⟨fun _ => hlooks rfl hpc, h.reads⟩
  | closed event => exact .away rfl h.reads
  | blocked event => exact .away rfl (always_append_singleton.mpr ⟨h.reads, trivial⟩)
  | forwards event hpc =>
    refine ⟨fun _ => (hlooks rfl hpc).append ?_, always_append_singleton.mpr ⟨h.reads, trivial⟩⟩
    intro heq
    cases heq
  | reads frame client hpc =>
    exact .away (handleFrame_looks frame) (always_append_singleton.mpr ⟨h.reads, hlooks rfl hpc⟩)
  | readFails e client hpc =>
    exact .away rfl (always_append_singleton.mpr ⟨h.reads, hlooks rfl hpc⟩)
  | dropPending reason => exact .away rfl h.reads

theorem LooksOk.step (h : LooksOk s) (hjobs : s.jobs.Ok s.log) (hstep : Steps hasPsram s s') :
    LooksOk s' := by
  have hgrow : ∀ {s' : State A} {e : Event}, s'.pc = s.pc → s'.log = s.log ++ [e] →
      e ≠ .blocked → ServedBeforeRead s.log e → LooksOk s' := by
    intro s' e hpc hlog he hread
    refine ⟨fun hlooks => ?_, ?_⟩
    · rw [hlog]
      exact (h.served (hpc ▸ hlooks)).append he
    · rw [hlog]
      exact always_append_singleton.mpr ⟨h.reads, hread⟩
  cases hstep with
  | thread mask _ hacts => exact h.acts hjobs hacts
  | refuse e => exact hgrow rfl rfl nofun trivial
  | enqueue data fits => exact hgrow rfl rfl nofun trivial
  | complete id completion => exact hgrow rfl rfl nofun trivial
  | disconnect => exact ⟨h.served, h.reads⟩
  | receive event channel => exact hgrow rfl rfl nofun trivial
  | stopListening => exact ⟨h.served, h.reads⟩

/-! ### Every run -/

/-- While the thread waits in `send_blocking`, no call of `send` waits for the thread: every job has
been written or dropped, and every completion is there.  And before the thread looks at the socket,
it has written every job that was queued when a message could not be forwarded. -/
theorem no_circular_wait (failure : Option ConnectFailure) (client : WsClient A) (sink : Sink)
    (actions : List Action) (s : State A)
    (h : (State.start failure client sink).run hasPsram actions = some s) :
    (s.Blocked hasPsram → (∀ id ∈ s.waiting, s.results id ≠ none) ∧
      ∀ job ∈ enqueuedJobs s.log, job ∈ writtenJobs s.log ∨ job ∈ droppedJobs s.log) ∧
    Always ServedBeforeRead s.log := by
  have hinv : s.Ok ∧ LooksOk s := by
    refine State.run_induction (P := fun s => s.Ok ∧ LooksOk s) ?_ ?_ h
    · exact ⟨State.ok_start failure client sink, nofun, always_nil⟩
    · exact fun s s' hs hstep => ⟨hs.1.step hstep, hs.2.step hs.1.jobs hstep⟩
  exact ⟨fun hblocked => hinv.1.jobs.resolved (hblocked.dropped hinv.1), hinv.2.reads⟩

/-- The connection is closed while `Connected` is still in the channel and a job in the queue. -/
def closedEarly : List Action :=
  turns 2 ++ [.send [7, 8, 9] sample_fits, .disconnect] ++ turns 4

theorem closedEarly_resolved :
    ∃ s, (State.start none talkingClient {}).run false closedEarly = some s ∧
      s.Blocked false ∧ s.waiting = [0] ∧ s.results 0 ≠ none := by
  have hrun : ((State.start none talkingClient {}).run false closedEarly).any (fun s =>
      s.waiting == [0] && (s.listening && s.full false) && match s.pc with
        | .disconnect .unknown => true
        | _ => false) = true := by decide +kernel
  obtain ⟨s, hs, hcheck⟩ := (Option.any_eq_true _ _).mp hrun
  simp only [Bool.and_eq_true, beq_iff_eq] at hcheck
  obtain ⟨⟨hwaiting, hroom⟩, hpc⟩ := hcheck
  have hblocked : s.Blocked false := by
    split at hpc
    next heq =>
      refine ⟨.disconnected .unknown, .exited, by rw [heq]; exact .disconnect .unknown, ?_⟩
      simp [State.sendBlocking, hroom]
    next => cases hpc
  refine ⟨s, hs, hblocked, hwaiting, ?_⟩
  exact ((no_circular_wait none talkingClient {} closedEarly s hs).1 hblocked).1 0
    (by rw [hwaiting]; exact List.mem_singleton_self 0)

/-! ### The thread waits nowhere else -/

/-- The reader of the thread is one that a connection can have. -/
theorem reader_acts {limits : Limits A} {mask : Mask} (h : Ws.Reachable limits s.client)
    (hacts : Acts hasPsram mask s s') : Ws.Reachable limits s'.client := by
  cases hacts with
  | reads frame client hpc hread =>
    have hcalled := h.called
    rwa [hread] at hcalled
  | readFails e client hpc hread =>
    have hcalled := h.called
    rwa [hread] at hcalled
  | _ => exact h

theorem reader_step {limits : Limits A} (h : Ws.Reachable limits s.client)
    (hstep : Steps hasPsram s s') : Ws.Reachable limits s'.client := by
  cases hstep with
  | thread mask _ hacts => exact reader_acts h hacts
  | _ => exact h

/-- Sending a frame always ends. -/
theorem sends_ne_none (mask : Mask) (what : Outgoing) (pc : Except IoError Unit → Pc) :
    s.sends mask what pc ≠ none := by
  have hspec := what.run_spec mask s.sink s.sink rfl
  unfold State.sends
  rcases hrun : what.run mask s.sink with ⟨_ | e | _, sink⟩
  · exact nofun
  · exact nofun
  · rw [hrun] at hspec
    exact hspec.elim

/-- The reader of a connected client does not panic. -/
theorem readFrame_returns {limits : Limits A} {client : WsClient A}
    (h : Ws.Reachable limits client) (hlimits : limits.maxFrameSize ≤ A.isizeMax)
    (hlimits' : limits.maxMessageSize ≤ A.isizeMax) :
    (WsClient.readFrame client).1 ≠ .halted ∧
      (WsClient.readFrame client).1 ≠ .error .capacityOverflow := by
  obtain ⟨hsafe, rfl⟩ := reachable_safe h
  obtain ⟨bytes, hstands⟩ := hsafe.exists_stands
  have hspec := WsClient.readFrame_spec hsafe hstands client rfl
  constructor
  · intro hhalted
    rw [hhalted] at hspec
    exact hspec
  · intro herror
    rw [herror] at hspec
    rcases hspec.overflow rfl with hlt | hlt
    · exact absurd hlt (not_lt.mpr hlimits)
    · exact absurd hlt (not_lt.mpr hlimits')

/-- The thread of a connected client can always go on, unless it has ended or waits for room in the
channel. -/
theorem waits_only_for_room {limits : Limits A} (hlimits : limits.maxFrameSize ≤ A.isizeMax)
    (hlimits' : limits.maxMessageSize ≤ A.isizeMax) {failure : Option ConnectFailure}
    {client : WsClient A} (hclient : Ws.Reachable limits client) {sink : Sink}
    {actions : List Action}
    (h : (State.start failure client sink).run hasPsram actions = some s) {mask : Mask}
    (hnone : s.next hasPsram mask = none) :
    s.pc = .refused ∨ s.pc = .exited ∨ s.Blocked hasPsram := by
  have hreader : Ws.Reachable limits s.client := State.run_induction
    (P := fun s => Ws.Reachable limits s.client) hclient (fun _ _ => reader_step) h
  -- inside the limits the reader always returns
  obtain ⟨hhalted, hoverflow⟩ := readFrame_returns hreader hlimits hlimits'
  cases hpc : s.pc with
  | refused => exact Or.inl rfl
  | exited => exact Or.inr (Or.inl rfl)
  | refuse reason =>
    simp only [State.next, hpc] at hnone
    exact Or.inr (Or.inr ⟨_, _, hpc ▸ .refuse reason, hnone⟩)
  | announce =>
    simp only [State.next, hpc] at hnone
    exact Or.inr (Or.inr ⟨_, _, hpc ▸ .announce, hnone⟩)
  | disconnect reason =>
    simp only [State.next, hpc] at hnone
    exact Or.inr (Or.inr ⟨_, _, hpc ▸ .disconnect reason, hnone⟩)
  | shut | write | pong | echoClose =>
    simp only [State.next, hpc] at hnone
    exact absurd hnone (sends_ne_none mask _ _)
  | connect failure =>
    cases failure <;> simp only [State.next, hpc] at hnone <;> cases hnone
  | drain =>
    simp only [State.next, hpc] at hnone
    split at hnone <;> cases hnone
  | forward =>
    simp only [State.next, hpc] at hnone
    split at hnone <;> cases hnone
  | read =>
    simp only [State.next, hpc] at hnone
    split at hnone
    next => cases hnone
    next => cases hnone
    next hread => exact absurd (congrArg Prod.fst hread) hoverflow
    next hread => exact absurd (congrArg Prod.fst hread) hhalted
  | leave | top | written | dropQueue | dropPending =>
    simp only [State.next, hpc] at hnone
    cases hnone

end WhatsappEsp32.Transport
