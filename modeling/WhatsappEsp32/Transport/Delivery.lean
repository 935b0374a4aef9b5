import WhatsappEsp32.Transport.Wire

/-!
# Delivery

What the socket thread and the consumer do with the events, as a machine of its own: a mailbox with
the one message that waits to be forwarded.  Every step of the system is a move of this machine as
well.

* `Mailbox`, `Mailbox.Move`, `Steps.mailbox`;
* `Mailbox.Ok`: the consumer sees `Connected`, the messages in the order in which they were read,
  and `Disconnected`; only a message that was pending when the thread stopped is missing;
* `State.run_ok`: the jobs and the events of every run;
* `delivery`: what a run guarantees to the callers of `send` and to the consumer.
-/

namespace WhatsappEsp32.Transport

open RustIo Ws Trace

variable {A : Arch} {hasPsram : Bool}

/-! ### The machine -/

/-- How far the connection is. -/
inductive Phase
  | opening
  | refused
  | running
  /-- About to read; no message is pending. -/
  | reading
  | stopping
  | finished
  deriving DecidableEq

/-- What the delivery of events is about: the phase of the thread, the event it holds back, and the
channel. -/
structure Mailbox where
  phase : Phase
  pending : Option TransportEvent
  channel : List TransportEvent
  listening : Bool

/-- The event is put into the channel, if the consumer still listens. -/
def Mailbox.put (m : Mailbox) (event : TransportEvent) : Mailbox :=
  { m with channel := if m.listening then m.channel ++ [event] else m.channel }

/-- The message that a call of `read_frame` gives. -/
def Event.message? : Event → Option Bytes
  | .read (.ok (some (.binary data))) => some data
  | _ => none

/-- The event that the thread puts into the channel. -/
def Event.emitted? : Event → Option TransportEvent
  | .emitted event => some event
  | _ => none

/-- The event that the other side takes out. -/
def Event.received? : Event → Option TransportEvent
  | .received event => some event
  | _ => none

/-- The events that are not about the mailbox. -/
def Event.isRemote (e : Event) : Prop :=
  e.message? = none ∧ e.emitted? = none ∧ e.received? = none

/-- What can become of the mailbox, and the events of it. -/
inductive Mailbox.Move : Mailbox → List Event → Mailbox → Prop
  | idle (m : Mailbox) (es : List Event) (h : ∀ e ∈ es, e.isRemote) : Move m es m
  /-- On to the next read, and from a read that gives no message. -/
  | approach (m : Mailbox) (h : m.phase = .running) (hpending : m.pending = none) :
      Move m [] { m with phase := .reading }
  | skip (m : Mailbox) (phase : Phase) (e : Event) (h : m.phase = .reading) (he : e.isRemote)
      (hphase : phase = .running ∨ phase = .stopping) : Move m [e] { m with phase := phase }
  | keep (m : Mailbox) (data : Bytes) (h : m.phase = .reading) :
      Move m [.read (.ok (some (.binary data)))]
        { m with phase := .running, pending := some (.dataReceived data) }
  /-- The thread leaves its loop. -/
  | stop (m : Mailbox) (es : List Event) (h : m.phase = .running) (hes : ∀ e ∈ es, e.isRemote) :
      Move m es { m with phase := .stopping }
  | announce (m : Mailbox) (h : m.phase = .opening) :
      Move m [.emitted .connected] { m.put .connected with phase := .running }
  | refuse (m : Mailbox) (reason : DisconnectReason) (h : m.phase = .opening) :
      Move m [.emitted (.disconnected reason)]
        { m.put (.disconnected reason) with phase := .refused }
  | forward (m : Mailbox) (event : TransportEvent) (h : m.phase = .running)
      (hpending : m.pending = some event) :
      Move m [.emitted event] { m.put event with phase := .reading, pending := none }
  /-- The pending message is lost as the thread stops. -/
  | lose (m : Mailbox) (h : m.phase = .running ∨ m.phase = .stopping) :
      Move m [] { m with phase := .stopping, pending := none }
  | disconnect (m : Mailbox) (reason : DisconnectReason) (h : m.phase = .stopping) :
      Move m [.emitted (.disconnected reason)]
        { m.put (.disconnected reason) with phase := .finished }
  | receive (m : Mailbox) (event : TransportEvent) (channel : List TransportEvent)
      (h : m.channel = event :: channel) (hlistening : m.listening = true) :
      Move m [.received event] { m with channel := channel }
  | stopListening (m : Mailbox) : Move m [] { m with listening := false }

/-! ### The system moves as the machine does -/

/-- The phase of a program point. -/
def Pc.phase : Pc → Phase
  | connect _ | refuse _ | announce => .opening
  | leave | refused => .refused
  | read => .reading
  | dropQueue _ | dropPending _ | disconnect _ => .stopping
  | exited => .finished
  | _ => .running

/-- The mailbox of a state. -/
def State.mailbox (s : State A) : Mailbox where
  phase := s.pc.phase
  pending := s.pendingEvent
  channel := s.channel
  listening := s.listening

/-- A step that is a move of the mailbox, with the events it logs. -/
def MailStep (s s' : State A) : Prop := ∃ es, s'.log = s.log ++ es ∧ s.mailbox.Move es s'.mailbox

theorem mailStep_idle {s s' : State A} (es : List Event) (hlog : s'.log = s.log ++ es)
    (hmailbox : s'.mailbox = s.mailbox) (h : ∀ e ∈ es, e.isRemote) : MailStep s s' := by
  refine ⟨es, hlog, ?_⟩
  rw [hmailbox]
  exact .idle _ es h

theorem Goes.phase {s : State A} {pc : Pc} (h : Goes s pc) : pc.phase = s.pc.phase := by
  cases h <;> simp [*, Pc.phase]

theorem Drops.phase {pc pc' : Pc} (h : Drops pc pc') : pc'.phase = pc.phase := by
  cases h <;> rfl

/-- Sending a frame in the loop, which may go on or not. -/
theorem Sends.phase {pc pc' : Pc} {what : Outgoing} {result : Except IoError Unit}
    (h : Sends pc what result pc') :
    pc.phase = .running ∧ (pc'.phase = .running ∨ pc'.phase = .stopping) := by
  cases h with
  | write | pong => exact ⟨rfl, Or.inl rfl⟩
  | shut | echoClose => exact ⟨rfl, Or.inr rfl⟩

/-- The thread sends an event that it does not have to keep. -/
theorem Emits.move {s : State A} {event : TransportEvent} {pc : Pc} (h : Emits s.pc event pc) :
    s.mailbox.Move [.emitted event] { s.mailbox.put event with phase := pc.phase } := by
  have hphase : s.mailbox.phase = s.pc.phase := rfl
  cases hpc : s.pc <;> rw [hpc] at h hphase <;> cases h
  case refuse reason => exact .refuse s.mailbox reason hphase
  case announce => exact .announce s.mailbox hphase
  case disconnect reason => exact .disconnect s.mailbox reason hphase

theorem mailStep_sends {s : State A} {mask : Mask} {what : Outgoing} {bytes : Bytes}
    {result : Except IoError Unit} {sink : Sink} {pc : Pc} (h : Sends s.pc what result pc) :
    MailStep s { s with
      sink := sink, pc := pc, log := s.log ++ [.wrote mask what bytes result] } := by
  obtain ⟨hrunning, hnext⟩ := h.phase
  have hremote : ∀ e ∈ [Event.wrote mask what bytes result], e.isRemote := by
    intro e he
    obtain rfl := List.mem_singleton.mp he
    exact ⟨rfl, rfl, rfl⟩
  rcases hnext with hphase | hphase
  · refine mailStep_idle [.wrote mask what bytes result] rfl ?_ hremote
    simp only [State.mailbox, hrunning, hphase]
  · refine ⟨[.wrote mask what bytes result], rfl, ?_⟩
    have hmove := Mailbox.Move.stop s.mailbox _ hrunning hremote
    simpa only [State.mailbox, hphase] using hmove

theorem mailStep_reads {s : State A} {frame : Option Frame} {client : WsClient A}
    (hpc : s.pc = .read) :
    MailStep s { s with
      client := client
      pc := State.handleFrame frame
      pendingEvent := State.keepFrame s.pendingEvent frame
      log := s.log ++ [.read (.ok frame)] } := by
  have hphase : s.mailbox.phase = .reading := by simp only [State.mailbox, hpc, Pc.phase]
  refine ⟨[.read (.ok frame)], rfl, ?_⟩
  rcases frame with _ | data | data | payload | payload | _ | ⟨code, reason⟩
  case some.binary => exact .keep s.mailbox data hphase
  all_goals exact .skip s.mailbox .running _ hphase ⟨rfl, rfl, rfl⟩ (Or.inl rfl)

/-- Every action of the thread is a move of the mailbox. -/
theorem mailStep_acts {s s' : State A} {mask : Mask} (h : Acts hasPsram mask s s') :
    MailStep s s' := by
  have hphase : s.mailbox.phase = s.pc.phase := rfl
  cases h with
  | goes pc h => exact mailStep_idle [] (by simp) (by simp only [State.mailbox, h.phase]) (by simp)
  | emits event pc h => exact ⟨[.emitted event], rfl, h.move⟩
  | sends what bytes result sink pc h => exact mailStep_sends h
  | take job queue hpc =>
    exact mailStep_idle [] (by simp) (by simp only [State.mailbox, hpc, Pc.phase]) (by simp)
  | report job result hpc =>
    rw [hpc] at hphase
    cases result with
    | ok => exact mailStep_idle [] (by simp) (by simp only [State.mailbox, hpc]; rfl) (by simp)
    -- after a failed write the thread is on its way out
    | error e => exact ⟨[], (List.append_nil _).symm, .stop s.mailbox [] hphase (by simp)⟩
  | drops pc h =>
    refine mailStep_idle [.dropped s.queue] rfl (by simp only [State.mailbox, h.phase]) ?_
    intro e he
    obtain rfl := List.mem_singleton.mp he
    exact ⟨rfl, rfl, rfl⟩
  | approach hpc hpending =>
    rw [hpc] at hphase
    exact ⟨[], (List.append_nil _).symm, .approach s.mailbox hphase hpending⟩
  | closed event hpc =>
    rw [hpc] at hphase
    exact ⟨[], (List.append_nil _).symm, .lose s.mailbox (Or.inl hphase)⟩
  | blocked event hpc =>
    refine mailStep_idle [.blocked] rfl (by simp only [State.mailbox, hpc, Pc.phase]) ?_
    intro e he
    obtain rfl := List.mem_singleton.mp he
    exact ⟨rfl, rfl, rfl⟩
  | forwards event hpc hpending =>
    rw [hpc] at hphase
    exact ⟨[.emitted event], rfl, .forward s.mailbox event hphase hpending⟩
  | reads frame client hpc => exact mailStep_reads hpc
  | readFails e client hpc =>
    rw [hpc] at hphase
    exact ⟨[.read (.error e)], rfl,
      .skip s.mailbox .stopping _ hphase ⟨rfl, rfl, rfl⟩ (Or.inr rfl)⟩
  | dropPending reason hpc =>
    rw [hpc] at hphase
    exact ⟨[], (List.append_nil _).symm, .lose s.mailbox (Or.inr hphase)⟩

/-- Every step of the system is a move of the mailbox. -/
theorem Steps.mailbox {s s' : State A} (h : Steps hasPsram s s') : MailStep s s' := by
  have hidle : ∀ (e : Event) (s' : State A), e.isRemote → s'.log = s.log ++ [e] →
      s'.mailbox = s.mailbox → MailStep s s' := by
    intro e s' he hlog hmailbox
    exact mailStep_idle [e] hlog hmailbox (by simpa using he)
  cases h with
  | thread mask _ h => exact mailStep_acts h
  | refuse e => exact hidle _ _ ⟨rfl, rfl, rfl⟩ rfl rfl
  | enqueue data fits => exact hidle _ _ ⟨rfl, rfl, rfl⟩ rfl rfl
  | complete id completion => exact hidle _ _ ⟨rfl, rfl, rfl⟩ rfl rfl
  | disconnect => exact mailStep_idle [] (by simp) rfl (by simp)
  | receive event channel hchannel hlistening =>
    exact ⟨[.received event], rfl, .receive s.mailbox event channel hchannel hlistening⟩
  | stopListening => exact ⟨[], (List.append_nil _).symm, .stopListening s.mailbox⟩

/-! ### The invariant -/

/-- The messages that `read_frame` gave, in order. -/
def readMessages (log : List Event) : List Bytes := log.filterMap Event.message?

/-- The events that the thread has sent, in order. -/
def emittedEvents (log : List Event) : List TransportEvent := log.filterMap Event.emitted?

/-- The events that the consumer has received, in order. -/
def receivedEvents (log : List Event) : List TransportEvent := log.filterMap Event.received?

theorem remote_nil {es : List Event} (h : ∀ e ∈ es, e.isRemote) :
    readMessages es = [] ∧ emittedEvents es = [] ∧ receivedEvents es = [] :=
  ⟨List.filterMap_eq_nil_iff.mpr fun e he => (h e he).1,
    List.filterMap_eq_nil_iff.mpr fun e he => (h e he).2.1,
    List.filterMap_eq_nil_iff.mpr fun e he => (h e he).2.2⟩

@[simp] theorem readMessages_append (log es : List Event) :
    readMessages (log ++ es) = readMessages log ++ readMessages es := List.filterMap_append ..

@[simp] theorem emittedEvents_append (log es : List Event) :
    emittedEvents (log ++ es) = emittedEvents log ++ emittedEvents es := List.filterMap_append ..

@[simp] theorem receivedEvents_append (log es : List Event) :
    receivedEvents (log ++ es) = receivedEvents log ++ receivedEvents es := List.filterMap_append ..

/-- The events that were sent up to a phase, when these messages were forwarded. -/
def Phase.Shape (forwarded : List Bytes) (events : List TransportEvent) : Phase → Prop
  | opening => events = [] ∧ forwarded = []
  | refused => (∃ reason, events = [.disconnected reason]) ∧ forwarded = []
  | running | reading | stopping => events = .connected :: forwarded.map .dataReceived
  | finished => ∃ reason,
    events = .connected :: forwarded.map .dataReceived ++ [.disconnected reason]

/-- The thread keeps a message only while it runs. -/
def Phase.keeps : Phase → Bool
  | running | stopping | finished => true
  | _ => false

/-- The mailbox agrees with the log: `forwarded` was sent, `held` is pending and `lost` was dropped
as the thread stopped. -/
structure Mailbox.Agrees (m : Mailbox) (log : List Event) (forwarded : List Bytes)
    (held lost : Option Bytes) : Prop where
  shape : m.phase.Shape forwarded (emittedEvents log)
  pending : m.pending = held.map .dataReceived
  read : readMessages log = forwarded ++ held.toList ++ lost.toList
  kept : held ≠ none → m.phase.keeps = true
  gone : lost ≠ none → held = none ∧ (m.phase = .stopping ∨ m.phase = .finished)
  seen : receivedEvents log <+: emittedEvents log
  channel : m.listening = true → receivedEvents log ++ m.channel = emittedEvents log

/-- The mailbox agrees with the log. -/
def Mailbox.Ok (m : Mailbox) (log : List Event) : Prop :=
  ∃ forwarded held lost, m.Agrees log forwarded held lost

namespace Mailbox.Agrees

variable {m : Mailbox} {log : List Event} {forwarded : List Bytes} {held lost : Option Bytes}

/-- An event is sent. -/
theorem emitted (h : m.Agrees log forwarded held lost) (event : TransportEvent) {phase : Phase}
    {pending : Option TransportEvent} {forwarded' : List Bytes} {held' : Option Bytes}
    (hshape : phase.Shape forwarded' (emittedEvents log ++ [event]))
    (hpending : pending = held'.map .dataReceived)
    (hread : forwarded' ++ held'.toList = forwarded ++ held.toList)
    (hheld : held' ≠ none → phase.keeps = true)
    (hlost : lost ≠ none → held' = none ∧ (phase = .stopping ∨ phase = .finished)) :
    Agrees { m.put event with phase := phase, pending := pending } (log ++ [.emitted event])
      forwarded' held' lost := by
  have hemitted : emittedEvents [.emitted event] = [event] := rfl
  have hreceived : receivedEvents [.emitted event] = [] := rfl
  have hmessages : readMessages [.emitted event] = [] := rfl
  refine ⟨?_, hpending, ?_, hheld, hlost, ?_, ?_⟩
  · rw [emittedEvents_append, hemitted]
    exact hshape
  · rw [readMessages_append, hmessages, List.append_nil, h.read, hread]
  · rw [receivedEvents_append, hreceived, List.append_nil, emittedEvents_append]
    exact h.seen.trans (List.prefix_append _ _)
  · intro hlistening
    simp only [Mailbox.put] at hlistening ⊢
    rw [if_pos hlistening, receivedEvents_append, hreceived, List.append_nil, emittedEvents_append,
      hemitted, ← List.append_assoc, h.channel hlistening]

/-- Only the phase changes, and the log grows by events that are not about the mailbox. -/
theorem moved (h : m.Agrees log forwarded held lost) {es : List Event} {phase : Phase}
    (hes : ∀ e ∈ es, e.isRemote)
    (hshape : m.phase.Shape forwarded (emittedEvents log) →
      phase.Shape forwarded (emittedEvents log))
    (hheld : held ≠ none → phase.keeps = true)
    (hlost : lost ≠ none → phase = .stopping ∨ phase = .finished) :
    Agrees { m with phase := phase } (log ++ es) forwarded held lost := by
  obtain ⟨hmessages, hemitted, hreceived⟩ := remote_nil hes
  refine ⟨?_, h.pending, ?_, hheld, fun hl => ⟨(h.gone hl).1, hlost hl⟩, ?_, ?_⟩
  · simpa [hemitted] using hshape h.shape
  · simpa [hmessages] using h.read
  · simpa [hemitted, hreceived] using h.seen
  · simpa [hemitted, hreceived] using h.channel

/-- A message that is lost was pending. -/
theorem dropped (h : m.Agrees log forwarded held lost)
    (hphase : m.phase = .running ∨ m.phase = .stopping) :
    Ok { m with phase := .stopping, pending := none } log := by
  have hshape : Phase.Shape forwarded (emittedEvents log) .stopping := by
    have := h.shape
    rcases hphase with hphase | hphase
    · rwa [hphase] at this
    · rwa [hphase] at this
  cases held with
  | none => exact ⟨forwarded, none, lost, hshape, rfl, h.read, nofun, fun _ => ⟨rfl, Or.inl rfl⟩,
      h.seen, h.channel⟩
  | some data =>
    have hlost : lost = none := by
      by_contra hne
      cases (h.gone hne).1
    refine ⟨forwarded, none, some data, hshape, rfl, ?_, nofun, fun _ => ⟨rfl, Or.inl rfl⟩, h.seen,
      h.channel⟩
    simpa [hlost] using h.read

/-- Every move keeps the mailbox in agreement with the log. -/
theorem move (h : m.Agrees log forwarded held lost) {es : List Event} {m' : Mailbox}
    (hmove : m.Move es m') : m'.Ok (log ++ es) := by
  have hshape := h.shape
  -- a message can only have been lost once the thread stops, and is only held where the phase
  -- allows it
  have hstill : m.phase ≠ .stopping → m.phase ≠ .finished → lost = none := by
    intro hstopping hfinished
    by_contra hne
    rcases (h.gone hne).2 with hphase | hphase
    · exact hstopping hphase
    · exact hfinished hphase
  have hfree : m.phase.keeps = false → held = none := by
    intro hkeeps
    by_contra hne
    exact nomatch (h.kept hne).symm.trans hkeeps
  cases hmove with
  | idle _ hes =>
    exact ⟨forwarded, held, lost, h.moved hes id h.kept fun hl => (h.gone hl).2⟩
  | approach hphase hpending =>
    have hheld : held = none := by
      cases held with
      | none => rfl
      | some data => exact nomatch hpending.symm.trans h.pending
    have hlost := hstill (by rw [hphase]; decide) (by rw [hphase]; decide)
    rw [hphase] at hshape
    exact ⟨forwarded, held, lost, h.moved nofun (fun _ => hshape) (fun hne => absurd hheld hne)
      fun hne => absurd hlost hne⟩
  | skip phase e hphase he hnext =>
    have hheld := hfree (by rw [hphase]; rfl)
    have hlost := hstill (by rw [hphase]; decide) (by rw [hphase]; decide)
    rw [hphase] at hshape
    refine ⟨forwarded, held, lost, h.moved (by simpa using he) (fun _ => ?_)
      (fun hne => absurd hheld hne) fun hne => absurd hlost hne⟩
    rcases hnext with rfl | rfl
    · exact hshape
    · exact hshape
  | keep data hphase =>
    have hheld := hfree (by rw [hphase]; rfl)
    have hlost := hstill (by rw [hphase]; decide) (by rw [hphase]; decide)
    rw [hphase] at hshape
    have hmessages : readMessages [.read (.ok (some (.binary data)))] = [data] := rfl
    have hemitted : emittedEvents [.read (.ok (some (.binary data)))] = [] := rfl
    have hreceived : receivedEvents [.read (.ok (some (.binary data)))] = [] := rfl
    refine ⟨forwarded, some data, none, ?_, rfl, ?_, fun _ => rfl, fun hne => absurd rfl hne, ?_, ?_⟩
    · rw [emittedEvents_append, hemitted, List.append_nil]
      exact hshape
    · simp [hmessages, h.read, hheld, hlost]
    · simpa [hemitted, hreceived] using h.seen
    · simpa [hemitted, hreceived] using h.channel
  | stop _ hphase hes =>
    have hlost := hstill (by rw [hphase]; decide) (by rw [hphase]; decide)
    rw [hphase] at hshape
    exact ⟨forwarded, held, lost, h.moved hes (fun _ => hshape) (fun _ => rfl)
      fun hne => absurd hlost hne⟩
  | announce hphase =>
    have hlost := hstill (by rw [hphase]; decide) (by rw [hphase]; decide)
    rw [hphase] at hshape
    obtain ⟨hevents, hforwarded⟩ := hshape
    refine ⟨forwarded, held, lost, h.emitted .connected ?_ h.pending rfl (fun _ => rfl)
      fun hne => absurd hlost hne⟩
    rw [hevents, hforwarded]
    rfl
  | refuse reason hphase =>
    have hheld := hfree (by rw [hphase]; rfl)
    have hlost := hstill (by rw [hphase]; decide) (by rw [hphase]; decide)
    rw [hphase] at hshape
    obtain ⟨hevents, hforwarded⟩ := hshape
    refine ⟨forwarded, held, lost, h.emitted (.disconnected reason) ?_ h.pending rfl
      (fun hne => absurd hheld hne) fun hne => absurd hlost hne⟩
    rw [hevents]
    exact ⟨⟨reason, rfl⟩, hforwarded⟩
  | forward event hphase hpending =>
    have hlost := hstill (by rw [hphase]; decide) (by rw [hphase]; decide)
    rw [hphase] at hshape
    -- the event that is forwarded is the message held back
    have heq := hpending.symm.trans h.pending
    cases hheld : held with
    | none =>
      rw [hheld] at heq
      cases heq
    | some data =>
      rw [hheld] at heq
      obtain rfl := Option.some.inj heq
      refine ⟨forwarded ++ [data], none, lost, h.emitted (.dataReceived data) ?_ rfl ?_ nofun
        fun hne => absurd hlost hne⟩
      · show emittedEvents log ++ [.dataReceived data] = _
        rw [show emittedEvents log = _ from hshape]
        simp
      · simp [hheld]
  | lose hphase =>
    rw [List.append_nil]
    exact h.dropped hphase
  | disconnect reason hphase =>
    rw [hphase] at hshape
    refine ⟨forwarded, held, lost, h.emitted (.disconnected reason) ⟨reason, ?_⟩ h.pending rfl
      (fun _ => rfl) fun hne => ⟨(h.gone hne).1, Or.inr rfl⟩⟩
    rw [show emittedEvents log = _ from hshape]
  | receive event channel hchannel hlistening =>
    have hmessages : readMessages [.received event] = [] := rfl
    have hemitted : emittedEvents [.received event] = [] := rfl
    have hreceived : receivedEvents [.received event] = [event] := rfl
    have hall := h.channel hlistening
    rw [hchannel] at hall
    -- what is received was the head of the channel, so the order stays that of emission
    have hsplit : receivedEvents log ++ [event] ++ channel = emittedEvents log := by
      rw [List.append_assoc]
      exact hall
    refine ⟨forwarded, held, lost, ?_, h.pending, ?_, h.kept, h.gone, ?_, fun _ => ?_⟩
    · simpa [hemitted] using hshape
    · simpa [hmessages] using h.read
    · rw [receivedEvents_append, hreceived, emittedEvents_append, hemitted, List.append_nil]
      exact ⟨channel, hsplit⟩
    · rw [receivedEvents_append, hreceived, emittedEvents_append, hemitted, List.append_nil]
      exact hsplit
  | stopListening =>
    rw [List.append_nil]
    exact ⟨forwarded, held, lost, hshape, h.pending, h.read, h.kept, h.gone, h.seen, nofun⟩

end Mailbox.Agrees

theorem mailbox_start (failure : Option ConnectFailure) (client : WsClient A) (sink : Sink) :
    (State.start failure client sink).mailbox.Ok (State.start failure client sink).log :=
  ⟨[], none, none, ⟨rfl, rfl⟩, rfl, rfl, fun hne => absurd rfl hne, fun hne => absurd rfl hne,
    List.prefix_rfl, fun _ => rfl⟩

/-! ### Every run -/

/-- The jobs, the events and the wire agree with the log. -/
structure State.Ok (s : State A) : Prop where
  jobs : s.jobs.Ok s.log
  mailbox : s.mailbox.Ok s.log
  wire : WireOk s

theorem State.Ok.step {s s' : State A} (h : s.Ok) (hstep : Steps hasPsram s s') : s'.Ok := by
  obtain ⟨es, hlog, hjobs⟩ := hstep.jobs
  obtain ⟨es', hlog', hmail⟩ := hstep.mailbox
  obtain ⟨forwarded, held, lost, hagrees⟩ := h.mailbox
  refine ⟨?_, ?_, h.wire.step hstep.wire⟩
  · rw [hlog]
    exact h.jobs.move hjobs
  · rw [hlog']
    exact hagrees.move hmail

theorem State.ok_start (failure : Option ConnectFailure) (client : WsClient A) (sink : Sink) :
    (State.start failure client sink).Ok :=
  ⟨jobs_start failure client sink, mailbox_start failure client sink,
    wireOk_start failure client sink⟩

theorem State.run_ok {failure : Option ConnectFailure} {client : WsClient A} {sink : Sink}
    {actions : List Action} {s : State A}
    (h : (State.start failure client sink).run hasPsram actions = some s) : s.Ok :=
  State.run_induction (State.ok_start failure client sink) (fun _ _ hs hstep => hs.step hstep) h

/-- What a state guarantees to the callers of `send` and to the consumer. -/
structure Delivers (s : State A) : Prop where
  /-- Messages are written in the order in which their jobs were queued. -/
  ordered : writtenJobs s.log <+: enqueuedJobs s.log
  /-- No job is queued twice, and so none is written twice. -/
  once : ((enqueuedJobs s.log).map WriteJob.id).Nodup
  /-- What is on the wire is what the writes have put there, in order. -/
  wire : s.sink.wire = s.log.flatMap Event.bytes
  frames : ∀ mask job bytes result, .wrote mask (.data job) bytes result ∈ s.log →
    bytes <+: clientFrame mask opBinary job.data
  /-- A call succeeds only after its frame was written and flushed as a whole. -/
  truthful : Always Truthful s.log
  /-- A call that reports `stopped` has had no byte written, and never will. -/
  unwritten : ∀ id, .returned id (.error .stopped) ∈ s.log → ∀ job ∈ writtenJobs s.log, job.id ≠ id
  /-- The consumer sees the events in order, and misses none while it listens. -/
  seen : receivedEvents s.log <+: emittedEvents s.log
  unseen : s.listening = true → receivedEvents s.log ++ s.channel = emittedEvents s.log
  /-- The events are `Connected`, the messages that were read, and once the thread has exited one
  `Disconnected`; of the messages only one that was pending when the thread stopped is missing. -/
  messages : ∃ forwarded rest, readMessages s.log = forwarded ++ rest ∧
    s.pc.phase.Shape forwarded (emittedEvents s.log) ∧ rest.length ≤ 1 ∧
    (s.pc.phase ≠ .stopping → s.pc.phase ≠ .finished →
      rest.map .dataReceived = s.pendingEvent.toList)

theorem Jobs.Ok.unwritten {j : Jobs} {log : List Event} (h : j.Ok log) {id : ℕ}
    (hmem : .returned id (.error .stopped) ∈ log) {job : WriteJob} (hjob : job ∈ writtenJobs log) :
    job.id ≠ id := by
  obtain ⟨past, rest, heq⟩ := List.append_of_mem hmem
  obtain ⟨job', hdropped, hid⟩ := h.truthful past _ rest heq
  have hdropped' : job' ∈ droppedJobs log := by
    rw [heq, droppedJobs_append]
    exact List.mem_append_left _ hdropped
  -- a job is not both written and dropped
  have hnodup := h.nodup
  rw [h.fifo, List.map_append] at hnodup
  have hdisjoint := (List.nodup_append.mp hnodup).2.2
  refine hid ▸ hdisjoint job.id (List.mem_map_of_mem ?_) job'.id (List.mem_map_of_mem hdropped')
  simp [hjob]

/-- The socket thread delivers every message at most once and in order, and reports writes
truthfully, whatever the interleaving. -/
theorem delivery (failure : Option ConnectFailure) (client : WsClient A) (sink : Sink)
    (actions : List Action) (s : State A)
    (h : (State.start failure client sink).run hasPsram actions = some s) : Delivers s := by
  obtain ⟨hjobs, ⟨forwarded, held, lost, hmail⟩, hwire⟩ := State.run_ok h
  refine ⟨?_, hjobs.nodup, hwire.wire, ?_, hjobs.truthful, ?_, hmail.seen, hmail.channel, ?_⟩
  · rw [hjobs.fifo, List.append_assoc, List.append_assoc]
    exact List.prefix_append _ _
  · exact fun mask job bytes result hmem => (hjobs.sent mask job bytes result hmem).front
  · exact fun id hmem job hjob => hjobs.unwritten hmem hjob
  · refine ⟨forwarded, held.toList ++ lost.toList, ?_, hmail.shape, ?_, fun hstopping hfinished => ?_⟩
    · rw [hmail.read, List.append_assoc]
    · cases hlost : lost with
      | none => cases held <;> simp
      | some data =>
        have hheld := (hmail.gone (by simp [hlost])).1
        simp [hheld]
    · have hlost : lost = none := by
        by_contra hne
        rcases (hmail.gone hne).2 with hphase | hphase
        · exact hstopping hphase
        · exact hfinished hphase
      have hpending : s.pendingEvent = held.map .dataReceived := hmail.pending
      rw [hlost, hpending]
      cases held <;> rfl

/-- A server that sends one message. -/
def talkingClient : WsClient esp32 :=
  { pingedClient with source := ⟨{ inbound := [.data [0x82, 0x01, 0x2A]] }, [], 0⟩ }

theorem sample_fits : ([7, 8, 9] : Bytes).length < 2 ^ 63 := by decide

/-- A call of `send` while the consumer is slow: the message of the server waits until `Connected`
was received, and the call does not. -/
def slowConsumer : List Action :=
  turns 6 ++ [.send [7, 8, 9] sample_fits] ++ turns 6 ++ [.complete 0, .receive] ++ turns 3 ++
    [.receive]

theorem slowConsumer_delivers :
    ∃ s, (State.start none talkingClient {}).run false slowConsumer = some s ∧
      receivedEvents s.log = [.connected, .dataReceived [0x2A]] ∧ Delivers s := by
  have hrun : ((State.start none talkingClient {}).run false slowConsumer).any
      (fun s => decide (receivedEvents s.log = [.connected, .dataReceived [0x2A]])) = true := by
    decide +kernel
  obtain ⟨s, hs, hreceived⟩ := (Option.any_eq_true _ _).mp hrun
  exact ⟨s, hs, of_decide_eq_true hreceived, delivery none talkingClient {} slowConsumer s hs⟩

end WhatsappEsp32.Transport
