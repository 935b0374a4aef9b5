import WhatsappEsp32.Transport.Thread

/-!
# Everything one step can do

The inversion of `State.next`, and what a frame that is sent puts on the wire.  The proofs about runs
are by cases on `Acts`.

* `Sent`, `State.sends_cases`: sending a frame;
* `Acts`, `State.next_acts`: the actions of the thread;
* `State.run_induction`: what every step keeps holds of every run.
-/

namespace WhatsappEsp32.Transport

open CrashLogic RustIo Ws

variable {A : Arch} {hasPsram : Bool}

/-! ### Sending a frame -/

/-- One frame that a server reads without failing. -/
def IsClientFrame (bytes : Bytes) : Prop := ∃ frame, parseFrame bytes = some (frame, [])

/-- What a call that sends `frame` has put on the wire: all of it if the call succeeds, and never
more. -/
structure Sent (frame bytes : Bytes) (result : Except IoError Unit) : Prop where
  front : bytes <+: frame
  whole : result = .ok () → bytes = frame
  valid : bytes ≠ [] → IsClientFrame frame

theorem isClientFrame_of_permitted (mask : Mask) {opcode : UInt8} {payload : Bytes}
    (hop : opcode ∈ opcodes) (hlen : payload.length < 2 ^ 63) (h : Permitted opcode payload) :
    IsClientFrame (clientFrame mask opcode payload) := by
  have hparse := parseFrame_clientFrame mask hop hlen h []
  rw [List.append_nil] at hparse
  exact ⟨_, hparse⟩

theorem sendFrame_sent (mask : Mask) {opcode : UInt8} {payload : Bytes} (hop : opcode ∈ opcodes)
    (hlen : opcode < opClose → payload.length < 2 ^ 63) (sink : Sink) :
    Triple (fun t => t = sink) (sendFrame mask opcode payload)
      (fun _ sink' => ∃ bytes, Sent (clientFrame mask opcode payload) bytes (.ok ()) ∧
        sink.Puts bytes sink')
      (fun e sink' => ∃ bytes, Sent (clientFrame mask opcode payload) bytes (.error e) ∧
        sink.Puts bytes sink')
      (fun _ => False) := by
  have hvalid : Permitted opcode payload → IsClientFrame (clientFrame mask opcode payload) := by
    intro h
    refine isClientFrame_of_permitted mask hop ?_ h
    by_cases hcontrol : opClose ≤ opcode
    · exact (h hcontrol).trans_lt (by decide)
    · exact hlen (UInt8.not_le.mp hcontrol)
  refine (sendFrame_spec mask opcode payload sink).weaken (fun _ => id) (fun _ sink' h => ?_)
    (fun e sink' h => ?_) (fun _ => id)
  · exact ⟨_, ⟨List.prefix_rfl, fun _ => rfl, fun _ => hvalid h.2⟩, h.1⟩
  · rcases h with rfl | ⟨hpermitted, ⟨part, rest, -, heq, hputs⟩ | hputs⟩
    · exact ⟨[], ⟨List.nil_prefix, nofun, fun h => absurd rfl h⟩, Sink.Puts.refl _⟩
    · exact ⟨part, ⟨⟨rest, heq.symm⟩, nofun, fun _ => hvalid hpermitted⟩, hputs⟩
    · exact ⟨_, ⟨List.prefix_rfl, nofun, fun _ => hvalid hpermitted⟩, hputs⟩

theorem Outgoing.run_spec (mask : Mask) (what : Outgoing) (sink : Sink) :
    Triple (fun t => t = sink) (what.run mask)
      (fun _ sink' => ∃ bytes, Sent (what.frame mask) bytes (.ok ()) ∧ sink.Puts bytes sink')
      (fun e sink' => ∃ bytes, Sent (what.frame mask) bytes (.error e) ∧ sink.Puts bytes sink')
      (fun _ => False) := by
  cases what with
  | data job => exact sendFrame_sent mask (by decide) (fun _ => job.fits) sink
  | pong payload => exact sendFrame_sent mask (by decide) (fun h => absurd h (by decide)) sink
  | close => exact sendFrame_sent mask (by decide) (fun h => absurd h (by decide)) sink

/-- Sending a frame changes the wire, and where the thread goes on. -/
theorem State.sends_cases {s s' : State A} {mask : Mask} {what : Outgoing}
    {pc : Except IoError Unit → Pc} (h : s.sends mask what pc = some s') :
    ∃ bytes result sink, Sent (what.frame mask) bytes result ∧ s.sink.Puts bytes sink ∧
      s' = { s with
        sink := sink, pc := pc result, log := s.log ++ [.wrote mask what bytes result] } := by
  have hspec := what.run_spec mask s.sink s.sink rfl
  have hdrop : ∀ {bytes : Bytes} {sink : Sink}, s.sink.Puts bytes sink →
      sink.wire.drop s.sink.wire.length = bytes := by
    intro bytes sink hputs
    rw [hputs, List.drop_left]
  unfold sends at h
  rcases hrun : what.run mask s.sink with ⟨_ | e | _, sink⟩
  · rw [hrun] at h hspec
    obtain rfl := Option.some.inj h
    obtain ⟨bytes, hsent, hputs⟩ : ∃ bytes, Sent (what.frame mask) bytes (.ok ()) ∧
        s.sink.Puts bytes sink := hspec
    refine ⟨bytes, .ok (), sink, hsent, hputs, ?_⟩
    rw [sent, hdrop hputs]
  · rw [hrun] at h hspec
    obtain rfl := Option.some.inj h
    obtain ⟨bytes, hsent, hputs⟩ : ∃ bytes, Sent (what.frame mask) bytes (.error e) ∧
        s.sink.Puts bytes sink := hspec
    refine ⟨bytes, .error e, sink, hsent, hputs, ?_⟩
    rw [sent, hdrop hputs]
  · rw [hrun] at h
    cases h

/-! ### The actions of the thread -/

/-- The thread only moves on. -/
inductive Goes (s : State A) : Pc → Prop
  | connect (h : s.pc = .connect none) : Goes s .announce
  | fail (failure : ConnectFailure) (h : s.pc = .connect (some failure)) :
      Goes s (.refuse (.readError failure.message))
  | shut (h : s.pc = .top) (hshutdown : s.shutdown = true) : Goes s .shut
  | drain (h : s.pc = .top) (hshutdown : s.shutdown = false) : Goes s .drain
  | drained (h : s.pc = .drain) (hqueue : s.queue = []) : Goes s .forward

/-- The thread sends an event and waits for room. -/
inductive Emits : Pc → TransportEvent → Pc → Prop
  | refuse (reason : DisconnectReason) : Emits (.refuse reason) (.disconnected reason) .leave
  | announce : Emits .announce .connected .top
  | disconnect (reason : DisconnectReason) :
      Emits (.disconnect reason) (.disconnected reason) .exited

/-- The thread sends a frame. -/
inductive Sends : Pc → Outgoing → Except IoError Unit → Pc → Prop
  | shut (result : Except IoError Unit) : Sends .shut .close result (.dropQueue .unknown)
  | write (job : WriteJob) (result : Except IoError Unit) :
      Sends (.write job) (.data job) result (.written job result)
  | pong (payload : Bytes) (result : Except IoError Unit) :
      Sends (.pong payload) (.pong payload) result .top
  | echoClose (reason : DisconnectReason) (result : Except IoError Unit) :
      Sends (.echoClose reason) .close result (.dropQueue reason)

/-- The thread drops the queue. -/
inductive Drops : Pc → Pc → Prop
  | leave : Drops .leave .refused
  | dropQueue (reason : DisconnectReason) : Drops (.dropQueue reason) (.dropPending reason)

/-- Everything that the next action of the thread can be. -/
inductive Acts (hasPsram : Bool) (mask : Mask) (s : State A) : State A → Prop
  | goes (pc : Pc) (h : Goes s pc) : Acts hasPsram mask s { s with pc := pc }
  | emits (event : TransportEvent) (pc : Pc) (h : Emits s.pc event pc)
      (hroom : ¬(s.listening = true ∧ s.full hasPsram = true)) :
      Acts hasPsram mask s { s.emit event with pc := pc }
  | sends (what : Outgoing) (bytes : Bytes) (result : Except IoError Unit) (sink : Sink) (pc : Pc)
      (h : Sends s.pc what result pc) (hsent : Sent (what.frame mask) bytes result)
      (hputs : s.sink.Puts bytes sink) :
      Acts hasPsram mask s { s with
        sink := sink, pc := pc, log := s.log ++ [.wrote mask what bytes result] }
  | take (job : WriteJob) (queue : List WriteJob) (h : s.pc = .drain)
      (hqueue : s.queue = job :: queue) :
      Acts hasPsram mask s { s with queue := queue, pc := .write job }
  | report (job : WriteJob) (result : Except IoError Unit) (h : s.pc = .written job result) :
      Acts hasPsram mask s { s with
        results := Function.update s.results job.id (some (.finished result))
        pc := State.afterReport result }
  | drops (pc : Pc) (h : Drops s.pc pc) :
      Acts hasPsram mask s { s with
        pc := pc
        queue := []
        results := fun id => if id ∈ s.queue.map WriteJob.id then some .cancelled else s.results id
        log := s.log ++ [.dropped s.queue] }
  | approach (h : s.pc = .forward) (hpending : s.pendingEvent = none) :
      Acts hasPsram mask s { s with pc := .read }
  | closed (event : TransportEvent) (h : s.pc = .forward) (hpending : s.pendingEvent = some event)
      (hlistening : s.listening = false) :
      Acts hasPsram mask s { s with pc := .dropQueue .unknown, pendingEvent := none }
  | blocked (event : TransportEvent) (h : s.pc = .forward) (hpending : s.pendingEvent = some event)
      (hfull : s.full hasPsram = true) :
      Acts hasPsram mask s { s with pc := .top, log := s.log ++ [.blocked] }
  | forwards (event : TransportEvent) (h : s.pc = .forward) (hpending : s.pendingEvent = some event)
      (hroom : s.full hasPsram = false) :
      Acts hasPsram mask s { s.emit event with pc := .read, pendingEvent := none }
  | reads (frame : Option Frame) (client : WsClient A) (h : s.pc = .read)
      (hread : WsClient.readFrame s.client = (.ok frame, client)) :
      Acts hasPsram mask s { s with
        client := client
        pc := State.handleFrame frame
        pendingEvent := State.keepFrame s.pendingEvent frame
        log := s.log ++ [.read (.ok frame)] }
  | readFails (e : IoError) (client : WsClient A) (h : s.pc = .read)
      (hread : WsClient.readFrame s.client = (.error (.io e), client)) :
      Acts hasPsram mask s { s with
        client := client
        pc := .dropQueue (State.readErrorReason e)
        log := s.log ++ [.read (.error e)] }
  | dropPending (reason : DisconnectReason) (h : s.pc = .dropPending reason) :
      Acts hasPsram mask s { s with pc := .disconnect reason, pendingEvent := none }

section

variable {s s' : State A} {mask : Mask}

theorem acts_sendBlocking {event : TransportEvent} {pc : Pc}
    (h : s.sendBlocking hasPsram event pc = some s') (hpc : Emits s.pc event pc) :
    Acts hasPsram mask s s' := by
  unfold State.sendBlocking at h
  split_ifs at h with hfull
  obtain rfl := Option.some.inj h
  exact .emits event pc hpc (by simpa using hfull)

theorem acts_sends {what : Outgoing} {pc : Except IoError Unit → Pc}
    (h : s.sends mask what pc = some s') (hpc : ∀ result, Sends s.pc what result (pc result)) :
    Acts hasPsram mask s s' := by
  obtain ⟨bytes, result, sink, hsent, hputs, rfl⟩ := State.sends_cases h
  exact .sends what bytes result sink _ (hpc result) hsent hputs

theorem acts_forward (hpc : s.pc = .forward) (h : s.next hasPsram mask = some s') :
    Acts hasPsram mask s s' := by
  simp only [State.next, hpc, State.forwardPending] at h
  cases hpending : s.pendingEvent with
  | none =>
    simp only [hpending] at h
    obtain rfl := Option.some.inj h
    have hacts : Acts hasPsram mask s { s with pc := .read } := .approach hpc hpending
    rwa [hpending] at hacts
  | some event =>
    simp only [hpending] at h
    split_ifs at h with hlistening hfull
    · obtain rfl := Option.some.inj h
      exact .closed event hpc hpending (by simpa using hlistening)
    · obtain rfl := Option.some.inj h
      have hacts : Acts hasPsram mask s { s with pc := .top, log := s.log ++ [.blocked] } :=
        .blocked event hpc hpending hfull
      rwa [hpending] at hacts
    · obtain rfl := Option.some.inj h
      exact .forwards event hpc hpending (by simpa using hfull)

theorem acts_read (hpc : s.pc = .read) (h : s.next hasPsram mask = some s') :
    Acts hasPsram mask s s' := by
  simp only [State.next, hpc] at h
  split at h
  next frame client hread =>
    obtain rfl := Option.some.inj h
    exact .reads frame client hpc hread
  next e client hread =>
    obtain rfl := Option.some.inj h
    exact .readFails e client hpc hread
  next => cases h
  next => cases h

theorem State.next_acts (h : s.next hasPsram mask = some s') : Acts hasPsram mask s s' := by
  cases hpc : s.pc with
  | forward => exact acts_forward hpc h
  | read => exact acts_read hpc h
  | connect failure =>
    cases failure with
    | none =>
      simp only [State.next, hpc] at h
      obtain rfl := Option.some.inj h
      exact .goes _ (.connect hpc)
    | some failure =>
      simp only [State.next, hpc] at h
      obtain rfl := Option.some.inj h
      exact .goes _ (.fail failure hpc)
  | top =>
    simp only [State.next, hpc] at h
    obtain rfl := Option.some.inj h
    split_ifs with hshutdown
    · exact .goes _ (.shut hpc hshutdown)
    · exact .goes _ (.drain hpc (by simpa using hshutdown))
  | drain =>
    simp only [State.next, hpc] at h
    cases hqueue : s.queue with
    | nil =>
      simp only [hqueue] at h
      obtain rfl := Option.some.inj h
      have hacts : Acts hasPsram mask s { s with pc := .forward } :=
        .goes _ (.drained hpc hqueue)
      rwa [hqueue] at hacts
    | cons job queue =>
      simp only [hqueue] at h
      obtain rfl := Option.some.inj h
      exact .take job queue hpc hqueue
  -- the three program points with a blocking send
  | refuse reason =>
    simp only [State.next, hpc] at h
    exact acts_sendBlocking h (hpc ▸ .refuse reason)
  | announce =>
    simp only [State.next, hpc] at h
    exact acts_sendBlocking h (hpc ▸ .announce)
  | disconnect reason =>
    simp only [State.next, hpc] at h
    exact acts_sendBlocking h (hpc ▸ .disconnect reason)
  -- the four that write to the socket
  | shut =>
    simp only [State.next, hpc] at h
    exact acts_sends h fun result => hpc ▸ .shut result
  | write job =>
    simp only [State.next, hpc] at h
    exact acts_sends h fun result => hpc ▸ .write job result
  | pong payload =>
    simp only [State.next, hpc] at h
    exact acts_sends h fun result => hpc ▸ .pong payload result
  | echoClose reason =>
    simp only [State.next, hpc] at h
    exact acts_sends h fun result => hpc ▸ .echoClose reason result
  | written job result =>
    simp only [State.next, hpc] at h
    obtain rfl := Option.some.inj h
    exact .report job result hpc
  | leave =>
    simp only [State.next, hpc] at h
    obtain rfl := Option.some.inj h
    exact .drops _ (hpc ▸ .leave)
  | dropQueue reason =>
    simp only [State.next, hpc] at h
    obtain rfl := Option.some.inj h
    exact .drops _ (hpc ▸ .dropQueue reason)
  | dropPending reason =>
    simp only [State.next, hpc] at h
    obtain rfl := Option.some.inj h
    exact .dropPending reason hpc
  | refused | exited =>
    simp only [State.next, hpc] at h
    cases h

end

/-! ### The steps of the system -/

/-- Everything that a step of the system can be. -/
inductive Steps (hasPsram : Bool) (s : State A) : State A → Prop
  | thread (mask : Mask) (s' : State A) (h : Acts hasPsram mask s s') : Steps hasPsram s s'
  /-- A call of `send` returns at once. -/
  | refuse (e : SendError) (h : e = .closed ∨ e = .queueFull (sendQueueCap hasPsram)) :
      Steps hasPsram s { s with
        calls := s.calls + 1, log := s.log ++ [.returned s.calls (.error e)] }
  | enqueue (data : Bytes) (fits : data.length < 2 ^ 63) (h : s.pc.holdsQueue = true)
      (hroom : s.queue.length < sendQueueCap hasPsram) :
      Steps hasPsram s { s with
        calls := s.calls + 1
        waiting := s.waiting ++ [s.calls]
        queue := s.queue ++ [⟨s.calls, data, fits⟩]
        log := s.log ++ [.enqueued ⟨s.calls, data, fits⟩] }
  | complete (id : ℕ) (completion : Completion) (h : id ∈ s.waiting)
      (hresult : s.results id = some completion) :
      Steps hasPsram s { s with
        waiting := s.waiting.erase id, log := s.log ++ [.returned id completion.result] }
  | disconnect : Steps hasPsram s { s with shutdown := true }
  | receive (event : TransportEvent) (channel : List TransportEvent)
      (h : s.channel = event :: channel) (hlistening : s.listening = true) :
      Steps hasPsram s { s with channel := channel, log := s.log ++ [.received event] }
  | stopListening : Steps hasPsram s { s with listening := false }

theorem State.step_cases {s s' : State A} {action : Action}
    (h : s.step hasPsram action = some s') : Steps hasPsram s s' := by
  cases action with
  | thread mask => exact .thread mask s' (State.next_acts h)
  | send data fits =>
    obtain rfl := Option.some.inj h
    unfold State.send
    split_ifs with hopen hfull
    · exact .refuse .closed (Or.inl rfl)
    · exact .refuse _ (Or.inr rfl)
    · exact .enqueue data fits (by simpa using hopen) (not_le.mp hfull)
  | complete id =>
    simp only [State.step] at h
    split_ifs at h with hwaiting
    obtain ⟨completion, hresult, rfl⟩ := Option.map_eq_some_iff.mp h
    exact .complete id completion hwaiting hresult
  | disconnect =>
    obtain rfl := Option.some.inj h
    exact .disconnect
  | receive =>
    simp only [State.step] at h
    split at h
    next => cases h
    next event channel hchannel =>
      split_ifs at h with hlistening
      obtain rfl := Option.some.inj h
      exact .receive event channel hchannel hlistening
  | stopListening =>
    obtain rfl := Option.some.inj h
    exact .stopListening

/-- What every step keeps holds of every run. -/
theorem State.run_induction {P : State A → Prop} {s s' : State A} {actions : List Action}
    (h : P s) (hstep : ∀ s s', P s → Steps hasPsram s s' → P s')
    (hrun : s.run hasPsram actions = some s') : P s' := by
  induction actions generalizing s with
  | nil =>
    obtain rfl := Option.some.inj hrun
    exact h
  | cons action actions ih =>
    obtain ⟨s₁, hs₁, hrun⟩ := Option.bind_eq_some_iff.mp hrun
    exact ih (hstep s s₁ h (State.step_cases hs₁)) hrun

end WhatsappEsp32.Transport
