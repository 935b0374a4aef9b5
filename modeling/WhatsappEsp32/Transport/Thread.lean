import WhatsappEsp32.Lib.Trace
import WhatsappEsp32.Ws.Outbound

/-!
# The socket thread

`ws_thread` drives one connection: it writes the jobs that `send` queues, forwards what it reads to
a consumer through a channel that may be bounded, and ends with one `Disconnected`.  It shares the
queue, the channel, the completions and the shutdown flag with any number of callers of `send`, with
`disconnect` and with the consumer.

* `WriteJob`, `TransportEvent`, `SendError`;
* `Pc`: where the thread is, before the action that the name says;
* `State`, `State.next`: the next action of the thread, on the reader of `Ws.Client` and the writer
  of `Ws.Outbound`;
* `State.step`, `State.run`: the thread, the callers and the consumer, in any order.
-/

namespace WhatsappEsp32.Transport

open CrashLogic RustIo Ws

/-! ### What is passed around -/

/-- A queued write.  The number stands for the completion that its caller waits on, and no buffer of
any target has `2 ^ 63` bytes. -/
structure WriteJob where
  id : ℕ
  data : Bytes
  fits : data.length < 2 ^ 63
  deriving DecidableEq

/-- Why a connection ended: `DisconnectReason` of the SDK. -/
inductive DisconnectReason
  | readError (message : String)
  | serverClose (code : Option ℕ) (reason : String)
  | unknown
  deriving DecidableEq

/-- What the thread tells the SDK: `TransportEvent`. -/
inductive TransportEvent
  | connected
  | dataReceived (data : Bytes)
  | disconnected (reason : DisconnectReason)
  deriving DecidableEq

/-- Why there is no connection. -/
inductive ConnectFailure
  | invalidUrl (e : String)
  | tls (e : String)
  | handshake (e : String)

/-- The text of a refused connection. -/
def ConnectFailure.message : ConnectFailure → String
  | invalidUrl e => s!"invalid WS URL: {e}"
  | tls e => s!"TLS connect failed: {e}"
  | handshake e => s!"WebSocket handshake failed: {e}"

/-- What the sender of a completion has done: sent the result of the write, or gone away. -/
inductive Completion
  | finished (result : Except IoError Unit)
  | cancelled
  deriving DecidableEq

/-- The errors of `send`. -/
inductive SendError
  | queueFull (capacity : ℕ)
  | closed
  | stopped
  | write (e : IoError)
  deriving DecidableEq

/-- The text of a failed send. -/
def SendError.message : SendError → String
  | queueFull capacity => s!"Transport send queue full (capacity {capacity})"
  | closed => "Transport channel closed"
  | stopped => "Transport stopped before write completion"
  | write e => e.message

/-- What the completion makes of a call of `send`. -/
def Completion.result : Completion → Except SendError Unit
  | finished (.ok ()) => .ok ()
  | finished (.error e) => .error (.write e)
  | cancelled => .error .stopped

/-- The frames that the thread sends. -/
inductive Outgoing
  | data (job : WriteJob)
  | pong (payload : Bytes)
  | close
  deriving DecidableEq

namespace Outgoing

/-- What the socket is given for an outgoing frame. -/
def run (mask : Mask) : Outgoing → Prog Sink IoError Unit
  | data job => sendBinary mask job.data
  | pong payload => sendPong mask payload
  | close => sendClose mask 1000

/-- The whole frame. -/
def frame (mask : Mask) : Outgoing → Bytes
  | data job => clientFrame mask opBinary job.data
  | pong payload => clientFrame mask opPong payload
  | close => clientFrame mask opClose (toBeBytes 2 1000)

end Outgoing

/-- What has happened. -/
inductive Event
  | enqueued (job : WriteJob)
  /-- A frame was sent: the bytes that were put on the wire, and the result. -/
  | wrote (mask : Mask) (what : Outgoing) (bytes : Bytes) (result : Except IoError Unit)
  /-- The jobs of the queue were dropped with it. -/
  | dropped (jobs : List WriteJob)
  /-- `read_frame` has returned. -/
  | read (result : Except IoError (Option Frame))
  /-- The pending event could not be forwarded. -/
  | blocked
  /-- The thread has sent an event. -/
  | emitted (event : TransportEvent)
  | received (event : TransportEvent)
  /-- A call of `send` has returned. -/
  | returned (id : ℕ) (result : Except SendError Unit)

/-! ### The thread -/

/-- Where the thread is. -/
inductive Pc
  | connect (failure : Option ConnectFailure)
  /-- The blocking send of an early `Disconnected`. -/
  | refuse (reason : DisconnectReason)
  | leave
  | refused
  /-- The blocking send of `Connected`. -/
  | announce
  /-- The top of the loop: look at the shutdown flag. -/
  | top
  | shut
  | drain
  | write (job : WriteJob)
  | written (job : WriteJob) (result : Except IoError Unit)
  | forward
  | read
  | pong (payload : Bytes)
  | echoClose (reason : DisconnectReason)
  | dropQueue (reason : DisconnectReason)
  | dropPending (reason : DisconnectReason)
  /-- The blocking send of the last `Disconnected`. -/
  | disconnect (reason : DisconnectReason)
  | exited

/-- Whether the thread still holds the receiving end of the queue. -/
def Pc.holdsQueue : Pc → Bool
  | refused | dropPending _ | disconnect _ | exited => false
  | _ => true

/-- The thread's variables, what it shares, and what has happened so far. -/
structure State (A : Arch) where
  pc : Pc
  client : WsClient A
  sink : Sink := {}
  pendingEvent : Option TransportEvent := none
  shutdown : Bool := false
  queue : List WriteJob := []
  /-- The number of calls of `send`, those that wait for their completion, and the completions. -/
  calls : ℕ := 0
  waiting : List ℕ := []
  results : ℕ → Option Completion := fun _ => none
  channel : List TransportEvent := []
  /-- Whether the consumer still holds the receiving end of the channel. -/
  listening : Bool := true
  log : List Event := []

variable {A : Arch} (hasPsram : Bool)

/-- `SEND_QUEUE_CAP`. -/
def sendQueueCap : ℕ := if hasPsram then 64 else 1

/-- The channel is unbounded where there is PSRAM. -/
def channelCap : Option ℕ := if hasPsram then none else some 1

/-- `ForwardProgress`: what `forward_pending` answers. -/
inductive ForwardProgress
  | ready
  | blocked
  | closed

namespace State

/-- The channel has no room. -/
def full (s : State A) : Bool := (channelCap hasPsram).any fun cap => decide (cap ≤ s.channel.length)

/-- An event goes into the channel; without a consumer it is lost. -/
def emit (s : State A) (event : TransportEvent) : State A :=
  { s with
    channel := if s.listening then s.channel ++ [event] else s.channel
    log := s.log ++ [.emitted event] }

/-- `send_blocking`: waits while the channel is full. -/
def sendBlocking (s : State A) (event : TransportEvent) (pc : Pc) : Option (State A) :=
  if s.listening && s.full hasPsram then none else some { s.emit event with pc := pc }

/-- `forward_pending`. -/
def forwardPending (s : State A) : ForwardProgress × State A :=
  match s.pendingEvent with
  | none => (.ready, s)
  | some event =>
    if !s.listening then
      (.closed, { s with pendingEvent := none })
    else if s.full hasPsram then
      (.blocked, { s with log := s.log ++ [.blocked] })
    else
      (.ready, { s.emit event with pendingEvent := none })

/-- A frame was sent. -/
def sent (s : State A) (mask : Mask) (what : Outgoing) (pc : Pc) (result : Except IoError Unit)
    (sink : Sink) : State A :=
  { s with
    sink := sink
    pc := pc
    log := s.log ++ [.wrote mask what (sink.wire.drop s.sink.wire.length) result] }

/-- Send a frame, and go on as the result says. -/
def sends (s : State A) (mask : Mask) (what : Outgoing) (pc : Except IoError Unit → Pc) :
    Option (State A) :=
  match what.run mask s.sink with
  | (.ok (), sink) => some (s.sent mask what (pc (.ok ())) (.ok ()) sink)
  | (.error e, sink) => some (s.sent mask what (pc (.error e)) (.error e) sink)
  | (.halted, _) => none

/-- What the thread does with a frame. -/
def handleFrame : Option Frame → Pc
  | none => .top
  | some (.binary _) => .top
  | some (.ping payload) => .pong payload
  | some (.pong _) => .top
  | some (.text _) => .top
  | some (.close (some (code, reason))) => .echoClose (.serverClose (some code) reason)
  | some (.close none) => .echoClose (.serverClose none "")

/-- A binary message is kept until it can be forwarded. -/
def keepFrame (pending : Option TransportEvent) : Option Frame → Option TransportEvent
  | some (.binary data) => some (.dataReceived data)
  | _ => pending

/-- The reason after a failed write. -/
def sendErrorReason (e : IoError) : DisconnectReason :=
  let e := e.message
  .readError s!"WS send error: {e}"

/-- The reason after a failed read. -/
def readErrorReason (e : IoError) : DisconnectReason :=
  let e := e.message
  .readError s!"WS read error: {e}"

/-- Where the thread goes on after a job. -/
def afterReport : Except IoError Unit → Pc
  | .ok () => .drain
  | .error e => .dropQueue (sendErrorReason e)

/-- The next action of the thread.  `mask` is what `fill_random` gives if a frame is sent.  A panic
of the reader ends the thread. -/
def next (mask : Mask) (s : State A) : Option (State A) :=
  match s.pc with
  | .connect none => some { s with pc := .announce }
  | .connect (some failure) => some { s with pc := .refuse (.readError failure.message) }
  | .refuse reason => s.sendBlocking hasPsram (.disconnected reason) .leave
  | .leave => some { s with
      pc := .refused
      queue := []
      results := fun id => if id ∈ s.queue.map WriteJob.id then some .cancelled else s.results id
      log := s.log ++ [.dropped s.queue] }
  | .refused => none
  | .announce => s.sendBlocking hasPsram .connected .top
  | .top => some { s with pc := if s.shutdown then .shut else .drain }
  | .shut => s.sends mask .close fun _ => .dropQueue .unknown
  | .drain =>
    match s.queue with
    | [] => some { s with pc := .forward }
    | job :: queue => some { s with queue := queue, pc := .write job }
  | .write job => s.sends mask (.data job) (.written job)
  | .written job result => some { s with
      results := Function.update s.results job.id (some (.finished result))
      pc := afterReport result }
  | .forward =>
    match s.forwardPending hasPsram with
    | (.ready, s) => some { s with pc := .read }
    | (.blocked, s) => some { s with pc := .top }
    | (.closed, s) => some { s with pc := .dropQueue .unknown }
  | .read =>
    match WsClient.readFrame s.client with
    | (.ok frame, client) => some { s with
        client := client
        pc := handleFrame frame
        pendingEvent := keepFrame s.pendingEvent frame
        log := s.log ++ [.read (.ok frame)] }
    | (.error (.io e), client) => some { s with
        client := client
        pc := .dropQueue (readErrorReason e)
        log := s.log ++ [.read (.error e)] }
    | (.error .capacityOverflow, _) => none
    | (.halted, _) => none
  | .pong payload => s.sends mask (.pong payload) fun _ => .top
  | .echoClose reason => s.sends mask .close fun _ => .dropQueue reason
  | .dropQueue reason => some { s with
      pc := .dropPending reason
      queue := []
      results := fun id => if id ∈ s.queue.map WriteJob.id then some .cancelled else s.results id
      log := s.log ++ [.dropped s.queue] }
  | .dropPending reason => some { s with pc := .disconnect reason, pendingEvent := none }
  | .disconnect reason => s.sendBlocking hasPsram (.disconnected reason) .exited
  | .exited => none

/-! ### The system -/

/-- A call of `send`: its job is queued, or the call returns at once. -/
def send (s : State A) (data : Bytes) (fits : data.length < 2 ^ 63) : State A :=
  let id := s.calls
  if !s.pc.holdsQueue then
    { s with calls := id + 1, log := s.log ++ [.returned id (.error .closed)] }
  else if sendQueueCap hasPsram ≤ s.queue.length then
    { s with
      calls := id + 1
      log := s.log ++ [.returned id (.error (.queueFull (sendQueueCap hasPsram)))] }
  else
    { s with
      calls := id + 1
      waiting := s.waiting ++ [id]
      queue := s.queue ++ [⟨id, data, fits⟩]
      log := s.log ++ [.enqueued ⟨id, data, fits⟩] }

end State

/-- What can happen next. -/
inductive Action
  | thread (mask : Mask)
  | send (data : Bytes) (fits : data.length < 2 ^ 63)
  /-- A call of `send` sees its completion. -/
  | complete (id : ℕ)
  /-- `disconnect`, or the transport is dropped. -/
  | disconnect
  | receive
  /-- The consumer drops its end of the channel. -/
  | stopListening

/-- One step of the system; `none` if it cannot happen. -/
def State.step (s : State A) : Action → Option (State A)
  | .thread mask => s.next hasPsram mask
  | .send data fits => some (s.send hasPsram data fits)
  | .complete id =>
    if id ∈ s.waiting then
      (s.results id).map fun completion =>
        { s with waiting := s.waiting.erase id, log := s.log ++ [.returned id completion.result] }
    else
      none
  | .disconnect => some { s with shutdown := true }
  | .receive =>
    match s.channel with
    | [] => none
    | event :: channel =>
      if s.listening then
        some { s with channel := channel, log := s.log ++ [.received event] }
      else
        none
  | .stopListening => some { s with listening := false }

/-- A run. -/
def State.run (s : State A) : List Action → Option (State A)
  | [] => some s
  | action :: actions => (s.step hasPsram action).bind fun s => s.run actions

/-- A new connection. -/
def State.start (failure : Option ConnectFailure) (client : WsClient A) (sink : Sink) : State A :=
  { pc := .connect failure, client := client, sink := { sink with wire := [] } }

end WhatsappEsp32.Transport
