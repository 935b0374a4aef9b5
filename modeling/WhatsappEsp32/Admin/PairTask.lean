import Mathlib.Algebra.Order.BigOperators.Group.Finset
import Mathlib.Logic.Relation
import WhatsappEsp32.Admin.PairCode
import WhatsappEsp32.Lib.Trace

/-!
# Linking from the dashboard

`POST /pair-code` looks at the maintenance, the client and the store, begins an attempt, and gives a
task to the executor that waits for the socket, looks again, and asks the client for a code.
Requests run on the threads of the HTTP server and the tasks on the executor, which goes from one
await of a task to the next without a break; everything else happens in between.

* `Event`, `World`: what happens, and what the parties share;
* `Phase`, `Move`: one request and its task, one look or await at a time;
* `System`, `System.Step`: any number of requests, clients that come and go, maintenance, pairing
  and everything else that changes the status;
* `Legal`: what must have been seen before an event; `linking_legal`: it was, in every run, a code
  that is being generated has somebody at work on it, and a code that is shown was generated;
* `linking_ends`: the requests make a bounded number of moves, and one of them can move while a code
  is being generated.
-/

namespace WhatsappEsp32

open Trace

namespace PairTask

/-! ### The world -/

/-- What the handler hands to the task. -/
structure Link where
  client : ℕ
  phone : String
  requestId : UInt32

/-- What the handler of `/pair-code` answers. -/
inductive Answer
  /-- 202. -/
  | pending
  | refused (status : ℕ) (error : String)

/-- What happens to the status, the client and the requests. -/
inductive Event
  /-- `active_client.set` or `clear_if`. -/
  | active (client : Option ℕ)
  /-- The maintenance is taken, or found to be over. -/
  | maintenance (idle : Bool)
  /-- The store gets a device, or loses it. -/
  | device (deviceExists : Bool)
  | login (client : ℕ) (loggedIn : Bool)
  /-- The status changes otherwise. -/
  | status (now : Instant) (op : StatusOp)
  /-- A request with a phone number that it may be called. -/
  | request (k : ℕ) (phone : String)
  /-- `begin_pair_code` has made the attempt of request `k`. -/
  | begun (k : ℕ) (link : Link) (now : Instant)
  | answer (k : ℕ) (answer : Answer)
  /-- `wait_for_socket_ready` is over, well. -/
  | woken (k : ℕ)
  | pairStart (k client : ℕ) (phone : String)
  | pairEnd (k : ℕ) (result : Except String String)
  | complete (k : ℕ) (requestId : UInt32) (now : Instant) (code : String)
  | fail (k : ℕ) (requestId : UInt32) (message : String)

/-- What the handlers and tasks look at. -/
structure World where
  status : DeviceStatus
  active : Option ℕ
  idle : Bool
  deviceExists : Bool
  loggedIn : ℕ → Bool

/-- `Duration::from_secs(180)`. -/
def codeValidFor : ℕ := 180 * 10 ^ 9

namespace World

/-- A fresh status, no client, no maintenance and no device. -/
def initial : World := ⟨.new, none, true, false, fun _ => false⟩

/-- The world after an event. -/
def apply (w : World) : Event → World
  | .active client => { w with active := client }
  | .maintenance idle => { w with idle }
  | .device deviceExists => { w with deviceExists }
  | .login client loggedIn => { w with loggedIn := Function.update w.loggedIn client loggedIn }
  | .status now op => { w with status := op.run w.status now }
  | .begun _ _ now => { w with status := (w.status.beginPairCode now).2 }
  | .complete _ requestId now code =>
    { w with status := w.status.completePairCode now requestId code codeValidFor }
  | .fail _ requestId message => { w with status := w.status.failPairCode requestId message }
  | .request _ _ => w
  | .answer _ _ => w
  | .woken _ => w
  | .pairStart _ _ _ => w
  | .pairEnd _ _ => w

/-- The world after what has happened. -/
def after (log : List Event) : World := log.foldl apply initial

end World

/-! ### Requests and their tasks -/

/-- Where a request is: before the look or the await that the name says. -/
inductive Phase
  | absent
  /-- `maintenance.is_idle()`. -/
  | asked (phone : String)
  /-- `active_client.current()`. -/
  | idle (phone : String)
  /-- `store.stats().device_exists`. -/
  | picked (phone : String) (client : ℕ)
  /-- `client.is_logged_in()`. -/
  | noDevice (phone : String) (client : ℕ)
  /-- `begin_pair_code()`. -/
  | unpaired (phone : String) (client : ℕ)
  /-- `task_tx.try_send(task)`. -/
  | begun (link : Link)
  /-- The task was not taken. -/
  | unavailable (link : Link)
  /-- The task, in `wait_for_socket_ready`. -/
  | waiting (link : Link)
  /-- `task_active_client.is_current(&client)`. -/
  | woken (link : Link)
  /-- `task_store.stats().device_exists`. -/
  | current (link : Link)
  /-- `client.is_logged_in()`. -/
  | stored (link : Link)
  /-- `task_maintenance.is_idle()`. -/
  | free (link : Link)
  /-- The first poll of `pair_with_code`. -/
  | starting (link : Link)
  | pairing (link : Link)
  | finished

/-- The answer while maintenance is under way. -/
def maintenanceText : String := "Device maintenance is in progress"

/-- The answer while there is no client. -/
def clientStartingText : String := "WhatsApp client is starting"

/-- The answer when the store has a device or the client is logged in. -/
def alreadyPairedText : String := "Device is already paired"

/-- The failure of an attempt whose task could not be queued. -/
def executorText : String := "WhatsApp executor is unavailable"

/-- The failure of an attempt whose client did not connect in time. -/
def notReadyText : String := "WhatsApp connection is not ready"

/-- The failure of an attempt whose client was replaced. -/
def restartedText : String := "WhatsApp client restarted; try again"

/-- The failure of an attempt for which the client got no code. -/
def noCodeText : String := "Could not generate a pairing code; try again later"

/-- The next step of request `k`.  `segment` is the task that the executor is running; a task gives
the executor back at its next await. -/
inductive Move (w : World) (segment : Option ℕ) (k : ℕ) :
    Phase → List Event → Option ℕ → Phase → Prop
  | request (phone : String) :
      Move w segment k .absent [.request k phone] segment (.asked phone)
  | busy {phone : String} (h : w.idle = false) :
      Move w segment k (.asked phone) [.answer k (.refused 409 maintenanceText)] segment .finished
  | idle {phone : String} (h : w.idle = true) :
      Move w segment k (.asked phone) [] segment (.idle phone)
  | clientStarting {phone : String} (h : w.active = none) :
      Move w segment k (.idle phone) [.answer k (.refused 503 clientStartingText)] segment .finished
  | pick {phone : String} {client : ℕ} (h : w.active = some client) :
      Move w segment k (.idle phone) [] segment (.picked phone client)
  | device {phone : String} {client : ℕ} (h : w.deviceExists = true) :
      Move w segment k (.picked phone client) [.answer k (.refused 409 alreadyPairedText)] segment
        .finished
  | noDevice {phone : String} {client : ℕ} (h : w.deviceExists = false) :
      Move w segment k (.picked phone client) [] segment (.noDevice phone client)
  | loggedIn {phone : String} {client : ℕ} (h : w.loggedIn client = true) :
      Move w segment k (.noDevice phone client) [.answer k (.refused 409 alreadyPairedText)] segment
        .finished
  | unpaired {phone : String} {client : ℕ} (h : w.loggedIn client = false) :
      Move w segment k (.noDevice phone client) [] segment (.unpaired phone client)
  | refuse {phone : String} {client : ℕ} (now : Instant) {message : String}
      (h : (w.status.beginPairCode now).1 = .error message) :
      Move w segment k (.unpaired phone client) [.answer k (.refused 409 message)] segment .finished
  | begin {phone : String} {client : ℕ} (now : Instant) {requestId : UInt32}
      (h : (w.status.beginPairCode now).1 = .ok requestId) :
      Move w segment k (.unpaired phone client) [.begun k ⟨client, phone, requestId⟩ now] segment
        (.begun ⟨client, phone, requestId⟩)
  /-- The answer goes out while the task may already run, which does not wait for it. -/
  | submit {link : Link} :
      Move w segment k (.begun link) [.answer k .pending] segment (.waiting link)
  | unavailable {link : Link} : Move w segment k (.begun link) [] segment (.unavailable link)
  | giveUp {link : Link} :
      Move w segment k (.unavailable link)
        [.fail k link.requestId executorText, .answer k (.refused 503 executorText)] segment
        .finished
  | notReady {link : Link} (h : segment = none) :
      Move w segment k (.waiting link) [.fail k link.requestId notReadyText] none .finished
  | wake {link : Link} (h : segment = none) :
      Move w segment k (.waiting link) [.woken k] (some k) (.woken link)
  | restarted {link : Link} (h : w.active ≠ some link.client) :
      Move w segment k (.woken link) [.fail k link.requestId restartedText] none .finished
  | current {link : Link} (h : w.active = some link.client) :
      Move w segment k (.woken link) [] segment (.current link)
  | deviceNow {link : Link} (h : w.deviceExists = true) :
      Move w segment k (.current link) [.fail k link.requestId alreadyPairedText] none .finished
  | stored {link : Link} (h : w.deviceExists = false) :
      Move w segment k (.current link) [] segment (.stored link)
  | loggedInNow {link : Link} (h : w.loggedIn link.client = true) :
      Move w segment k (.stored link) [.fail k link.requestId alreadyPairedText] none .finished
  | free {link : Link} (h : w.loggedIn link.client = false) :
      Move w segment k (.stored link) [] segment (.free link)
  | busyNow {link : Link} (h : w.idle = false) :
      Move w segment k (.free link) [.fail k link.requestId maintenanceText] none .finished
  | starting {link : Link} (h : w.idle = true) :
      Move w segment k (.free link) [] segment (.starting link)
  | start {link : Link} :
      Move w segment k (.starting link) [.pairStart k link.client link.phone] none (.pairing link)
  | code {link : Link} (h : segment = none) (now : Instant) (code : String) :
      Move w segment k (.pairing link)
        [.pairEnd k (.ok code), .complete k link.requestId now code] none .finished
  | noCode {link : Link} (h : segment = none) (error : String) :
      Move w segment k (.pairing link)
        [.pairEnd k (.error error), .fail k link.requestId noCodeText] none .finished

/-! ### The system -/

/-- The operations of the status that are not about linking codes. -/
def isOutside : StatusOp → Bool
  | .setQrCode _ => true
  | .clearQrCode => true
  | .setConnected _ _ => true
  | .setDisconnected => true
  | .setLoggedOut => true
  | .recordMessage _ => true
  | .beginPairCode => false
  | .completePairCode _ _ _ => false
  | .failPairCode _ _ => false

/-- The requests with their phases, and the one whose future runs on the executor. -/
structure System where
  phases : ℕ → Phase
  segment : Option ℕ
  log : List Event

namespace System

/-- No requests yet. -/
def initial : System := ⟨fun _ => .absent, none, []⟩

/-- The world that the log has led to. -/
def world (s : System) : World := World.after s.log

/-- A request moves on, or something else happens to the world. -/
inductive Step (s : System) : System → Prop
  | move {k : ℕ} {es : List Event} {segment : Option ℕ} {phase : Phase}
      (h : Move s.world s.segment k (s.phases k) es segment phase) :
      Step s ⟨Function.update s.phases k phase, segment, s.log ++ es⟩
  /-- The supervisor runs on the executor too. -/
  | active (client : Option ℕ) (h : s.segment = none) :
      Step s ⟨s.phases, s.segment, s.log ++ [.active client]⟩
  | maintenance (idle : Bool) : Step s ⟨s.phases, s.segment, s.log ++ [.maintenance idle]⟩
  | device (deviceExists : Bool) : Step s ⟨s.phases, s.segment, s.log ++ [.device deviceExists]⟩
  | login (client : ℕ) (loggedIn : Bool) :
      Step s ⟨s.phases, s.segment, s.log ++ [.login client loggedIn]⟩
  | status (now : Instant) (op : StatusOp) (h : isOutside op = true) :
      Step s ⟨s.phases, s.segment, s.log ++ [.status now op]⟩

/-- Any finite run from the start. -/
def Reachable (s : System) : Prop := Relation.ReflTransGen Step initial s

end System

/-! ### What must have been seen -/

namespace Event

/-- The request that an event belongs to. -/
def about : Event → Option ℕ
  | .request k _ => some k
  | .begun k _ _ => some k
  | .answer k _ => some k
  | .woken k => some k
  | .pairStart k _ _ => some k
  | .pairEnd k _ => some k
  | .complete k _ _ _ => some k
  | .fail k _ _ => some k
  | .active _ => none
  | .maintenance _ => none
  | .device _ => none
  | .login _ _ => none
  | .status _ _ => none

/-- The place of an event among those of its request. -/
def place : Event → ℕ
  | .request _ _ => 0
  | .begun _ _ _ => 1
  | .answer _ .pending => 2
  | .woken _ => 3
  | .pairStart _ _ _ => 4
  | .pairEnd _ _ => 5
  | .complete _ _ _ _ => 6
  | .fail _ _ _ => 6
  | .answer _ (.refused _ _) => 7
  | .active _ => 0
  | .maintenance _ => 0
  | .device _ => 0
  | .login _ _ => 0
  | .status _ _ => 0

/-- The event that answers the attempt with this id. -/
def answers (id : UInt32) : Event → Bool
  | .complete _ requestId _ _ => requestId = id
  | .fail _ requestId _ => requestId = id
  | _ => false

end Event

/-- All that has happened to request `k` comes before place `n`. -/
def Before (log : List Event) (k n : ℕ) : Prop := ∀ e ∈ log, e.about = some k → e.place < n

/-- At some time after the event the world was so. -/
def SeenSince (log : List Event) (e : Event) (P : World → Prop) : Prop :=
  ∃ past later, log = past ++ later ∧ e ∈ past ∧ P (World.after past)

/-- The attempt of request `k`. -/
def Began (log : List Event) (k : ℕ) (link : Link) : Prop := ∃ now, .begun k link now ∈ log

/-- What must have happened and been seen before an event.  The events of a request come in their
order, each once.  An attempt begins after the maintenance was found idle, the client active, and
both the store and the client unpaired; a code is asked for from the same client while it is active,
for the phone number of the request, after all of this was found so again since the socket was
ready; and what completes an attempt is the code that was asked for. -/
def Legal (log : List Event) : Event → Prop
  | .request k phone => Before log k (Event.request k phone).place
  | .begun k link now =>
    Before log k (Event.begun k link now).place ∧
    SeenSince log (.request k link.phone) (fun w => w.idle = true) ∧
    SeenSince log (.request k link.phone) (fun w => w.active = some link.client) ∧
    SeenSince log (.request k link.phone) (fun w => w.deviceExists = false) ∧
    SeenSince log (.request k link.phone) (fun w => w.loggedIn link.client = false) ∧
    ((World.after log).status.beginPairCode now).1 = .ok link.requestId
  | .answer k answer =>
    Before log k (Event.answer k answer).place ∧
    match answer with
    | .pending => ∃ link, Began log k link
    | .refused _ _ => ∀ client phone, .pairStart k client phone ∉ log
  | .woken k => Before log k (Event.woken k).place ∧ .answer k .pending ∈ log
  | .pairStart k client phone =>
    Before log k (Event.pairStart k client phone).place ∧
    (∃ requestId, Began log k ⟨client, phone, requestId⟩) ∧
    (World.after log).active = some client ∧
    SeenSince log (.woken k) (fun w => w.deviceExists = false) ∧
    SeenSince log (.woken k) (fun w => w.loggedIn client = false) ∧
    SeenSince log (.woken k) (fun w => w.idle = true)
  | .pairEnd k result =>
    Before log k (Event.pairEnd k result).place ∧ ∃ client phone, .pairStart k client phone ∈ log
  | .complete k requestId now code =>
    Before log k (Event.complete k requestId now code).place ∧
    (∃ client phone, Began log k ⟨client, phone, requestId⟩) ∧ .pairEnd k (.ok code) ∈ log
  | .fail k requestId message =>
    Before log k (Event.fail k requestId message).place ∧
    (∃ client phone, Began log k ⟨client, phone, requestId⟩) ∧ ∀ code, .pairEnd k (.ok code) ∉ log
  | .status _ op => isOutside op = true
  | .active _ => True
  | .maintenance _ => True
  | .device _ => True
  | .login _ _ => True

/-! ### The invariant -/

namespace Phase

/-- The attempt that a request is at work on. -/
def link? : Phase → Option Link
  | .begun link => some link
  | .unavailable link => some link
  | .waiting link => some link
  | .woken link => some link
  | .current link => some link
  | .stored link => some link
  | .free link => some link
  | .starting link => some link
  | .pairing link => some link
  | _ => none

/-- The place that the events of a request have come to. -/
def place : Phase → ℕ
  | .absent => 0
  | .begun _ => 2
  | .unavailable _ => 3
  | .waiting _ => 3
  | .woken _ => 4
  | .current _ => 4
  | .stored _ => 4
  | .free _ => 4
  | .starting _ => 4
  | .pairing _ => 5
  | .finished => 8
  | _ => 1

/-- The task is between two awaits. -/
def running : Phase → Bool
  | .woken _ => true
  | .current _ => true
  | .stored _ => true
  | .free _ => true
  | .starting _ => true
  | _ => false

end Phase

/-- What the handler has seen of the maintenance and of a client. -/
structure Looked (log : List Event) (k : ℕ) (phone : String) (client : ℕ) : Prop where
  idle : SeenSince log (.request k phone) fun w => w.idle = true
  active : SeenSince log (.request k phone) fun w => w.active = some client

/-- A task that has the executor. -/
structure Awake (log : List Event) (segment : Option ℕ) (k : ℕ) (link : Link) : Prop where
  began : Began log k link
  woken : .woken k ∈ log
  segment : segment = some k

/-- Its client is active, and stays so while it has the executor. -/
structure Current (log : List Event) (segment : Option ℕ) (k : ℕ) (link : Link) : Prop extends
    Awake log segment k link where
  active : (World.after log).active = some link.client

/-- What has happened for a request to be where it is. -/
def PhaseOk (log : List Event) (segment : Option ℕ) (k : ℕ) : Phase → Prop
  | .absent => True
  | .asked phone => .request k phone ∈ log
  | .idle phone =>
    .request k phone ∈ log ∧ SeenSince log (.request k phone) fun w => w.idle = true
  | .picked phone client => .request k phone ∈ log ∧ Looked log k phone client
  | .noDevice phone client => .request k phone ∈ log ∧ Looked log k phone client ∧
    SeenSince log (.request k phone) fun w => w.deviceExists = false
  | .unpaired phone client => .request k phone ∈ log ∧ Looked log k phone client ∧
    (SeenSince log (.request k phone) fun w => w.deviceExists = false) ∧
    SeenSince log (.request k phone) fun w => w.loggedIn client = false
  | .begun link => Began log k link
  | .unavailable link => Began log k link
  | .waiting link => Began log k link ∧ .answer k .pending ∈ log
  | .woken link => Awake log segment k link
  | .current link => Current log segment k link
  | .stored link => Current log segment k link ∧
    SeenSince log (.woken k) fun w => w.deviceExists = false
  | .free link => Current log segment k link ∧
    (SeenSince log (.woken k) fun w => w.deviceExists = false) ∧
    SeenSince log (.woken k) fun w => w.loggedIn link.client = false
  | .starting link => Current log segment k link ∧
    (SeenSince log (.woken k) fun w => w.deviceExists = false) ∧
    (SeenSince log (.woken k) fun w => w.loggedIn link.client = false) ∧
    SeenSince log (.woken k) fun w => w.idle = true
  | .pairing link => Began log k link ∧ .pairStart k link.client link.phone ∈ log
  | .finished => True

/-- The events happen one after the other, each when it may. -/
def LegalRun : List Event → List Event → Prop
  | _, [] => True
  | log, e :: es => Legal log e ∧ LegalRun (log ++ [e]) es

section

variable {log es : List Event} {e : Event} {segment segment' : Option ℕ} {j k m n : ℕ}
  {phase phase' : Phase} {link : Link} {P : World → Prop}

theorem World.after_append (log es : List Event) :
    World.after (log ++ es) = es.foldl World.apply (World.after log) := List.foldl_append

theorem LegalRun.always (h : LegalRun log es) (hlog : Always Legal log) :
    Always Legal (log ++ es) := by
  induction es generalizing log with
  | nil => rwa [List.append_nil]
  | cons e es ih =>
    rw [List.append_cons]
    exact ih h.2 (always_append_singleton.mpr ⟨hlog, h.1⟩)

theorem SeenSince.append (h : SeenSince log e P) (es : List Event) : SeenSince (log ++ es) e P := by
  obtain ⟨past, later, rfl, he, hP⟩ := h
  exact ⟨past, later ++ es, List.append_assoc _ _ _, he, hP⟩

/-- What is seen now. -/
theorem SeenSince.now (he : e ∈ log) (hP : P (World.after log)) : SeenSince log e P :=
  ⟨log, [], (List.append_nil _).symm, he, hP⟩

theorem Began.append (h : Began log k link) (es : List Event) : Began (log ++ es) k link := by
  obtain ⟨now, hmem⟩ := h
  exact ⟨now, List.mem_append_left _ hmem⟩

theorem Before.mono (h : Before log k n) (hle : n ≤ m) : Before log k m := fun e he habout =>
  (h e he habout).trans_le hle

theorem Before.append (h : Before log k n) (hle : n ≤ m)
    (hes : ∀ e ∈ es, e.about = some k → e.place < m) : Before (log ++ es) k m := by
  intro e he habout
  rcases List.mem_append.mp he with he | he
  · exact (h e he habout).trans_le hle
  · exact hes e he habout

/-- An event that would be out of its place has not happened. -/
theorem Before.notMem (h : Before log k n) (habout : e.about = some k) (hle : n ≤ e.place) :
    e ∉ log := by
  intro he
  have hlt := h e he habout
  omega

theorem Looked.append {phone : String} {client : ℕ} (h : Looked log k phone client)
    (es : List Event) : Looked (log ++ es) k phone client :=
  ⟨h.idle.append es, h.active.append es⟩

theorem Awake.append (h : Awake log segment k link) (es : List Event)
    (hsegment : segment' = segment) : Awake (log ++ es) segment' k link :=
  ⟨h.began.append es, List.mem_append_left _ h.woken, hsegment.trans h.segment⟩

theorem Current.append (h : Current log segment k link) {es : List Event}
    (hsegment : segment' = segment)
    (hactive : (World.after (log ++ es)).active = (World.after log).active) :
    Current (log ++ es) segment' k link :=
  ⟨h.toAwake.append es hsegment, hactive.trans h.active⟩

/-- Others leave a request where it is, as long as they leave the executor to it. -/
theorem PhaseOk.append (h : PhaseOk log segment k phase)
    (hkept : segment = some k → segment' = segment ∧
      (World.after (log ++ es)).active = (World.after log).active) :
    PhaseOk (log ++ es) segment' k phase := by
  cases phase with
  | absent => trivial
  | asked phone => exact List.mem_append_left _ h
  | idle phone => exact ⟨List.mem_append_left _ h.1, h.2.append es⟩
  | picked phone client => exact ⟨List.mem_append_left _ h.1, h.2.append es⟩
  | noDevice phone client => exact ⟨List.mem_append_left _ h.1, h.2.1.append es, h.2.2.append es⟩
  | unpaired phone client =>
    exact ⟨List.mem_append_left _ h.1, h.2.1.append es, h.2.2.1.append es, h.2.2.2.append es⟩
  | begun link => exact Began.append h es
  | unavailable link => exact Began.append h es
  | waiting link => exact ⟨h.1.append es, List.mem_append_left _ h.2⟩
  | woken link => exact Awake.append h es (hkept h.segment).1
  | current link =>
    obtain ⟨hsegment, hactive⟩ := hkept h.segment
    exact Current.append h hsegment hactive
  | stored link =>
    obtain ⟨hsegment, hactive⟩ := hkept h.1.segment
    exact ⟨h.1.append hsegment hactive, h.2.append es⟩
  | free link =>
    obtain ⟨hsegment, hactive⟩ := hkept h.1.segment
    exact ⟨h.1.append hsegment hactive, h.2.1.append es, h.2.2.append es⟩
  | starting link =>
    obtain ⟨hsegment, hactive⟩ := hkept h.1.segment
    exact ⟨h.1.append hsegment hactive, h.2.1.append es, h.2.2.1.append es, h.2.2.2.append es⟩
  | pairing link => exact ⟨h.1.append es, List.mem_append_left _ h.2⟩
  | finished => trivial

theorem PhaseOk.running (h : PhaseOk log segment k phase) (hrunning : phase.running = true) :
    segment = some k := by
  cases phase with
  | woken link => exact h.segment
  | current link => exact h.segment
  | stored link => exact h.1.segment
  | free link => exact h.1.segment
  | starting link => exact h.1.segment
  | _ => cases hrunning

/-! ### One move -/

theorem Move.about {w : World} (h : Move w segment k phase es segment' phase') :
    ∀ e ∈ es, e.about = some k := by
  cases h <;> simp [Event.about]

/-- The events of a request come in their order. -/
theorem Move.before {w : World} (h : Move w segment k phase es segment' phase')
    (hbefore : Before log k phase.place) : Before (log ++ es) k phase'.place := by
  refine hbefore.append ?_ ?_
  · cases h <;> simp [Phase.place]
  · cases h <;> simp [Phase.place, Event.place]

theorem Move.active {w : World} (h : Move w segment k phase es segment' phase') :
    (es.foldl World.apply w).active = w.active := by
  cases h <;> rfl

/-- A move takes the executor from nobody else. -/
theorem Move.segment_eq {w : World} (h : Move w segment k phase es segment' phase')
    (hok : PhaseOk log segment k phase) (hj : j ≠ k) (hsegment : segment = some j) :
    segment' = segment := by
  have hnot : phase.running = false := by
    by_contra hrunning
    have hk := hok.running (by simpa using hrunning)
    exact hj (Option.some.inj (hsegment.symm.trans hk))
  cases h <;> first | rfl | simp_all [Phase.running]

/-- A refusal, before any code was asked for. -/
theorem legal_refused (hbefore : Before log k n) (hle : n ≤ 4) (status : ℕ) (error : String) :
    Legal log (.answer k (.refused status error)) :=
  ⟨hbefore.mono (hle.trans (by decide : 4 ≤ 7)), fun _ _ => hbefore.notMem rfl hle⟩

/-- An attempt fails, with no code. -/
theorem legal_fail (hbefore : Before log k n) (hle : n ≤ 5) (hbegan : Began log k link)
    (message : String) : Legal log (.fail k link.requestId message) :=
  ⟨hbefore.mono (hle.trans (by decide : 5 ≤ 6)), ⟨_, _, hbegan⟩, fun _ => hbefore.notMem rfl hle⟩

/-- A move keeps the executor, gives it back, or gets it. -/
theorem Move.segment_cases {w : World} (h : Move w segment k phase es segment' phase') :
    segment' = segment ∨ segment' = none ∨ segment' = some k := by
  cases h <;> simp

/-- A request in its right place does what it may. -/
theorem Move.legal (h : Move (World.after log) segment k phase es segment' phase')
    (hok : PhaseOk log segment k phase) (hbefore : Before log k phase.place) : LegalRun log es := by
  cases h with
  | request phone => exact ⟨hbefore, trivial⟩
  | busy h => exact ⟨legal_refused (n := 1) hbefore (by decide) _ _, trivial⟩
  | clientStarting h => exact ⟨legal_refused (n := 1) hbefore (by decide) _ _, trivial⟩
  | device h => exact ⟨legal_refused (n := 1) hbefore (by decide) _ _, trivial⟩
  | loggedIn h => exact ⟨legal_refused (n := 1) hbefore (by decide) _ _, trivial⟩
  | refuse now h => exact ⟨legal_refused (n := 1) hbefore (by decide) _ _, trivial⟩
  | begin now h =>
    obtain ⟨-, hlooked, hdevice, hlogin⟩ := hok
    exact ⟨⟨hbefore, hlooked.idle, hlooked.active, hdevice, hlogin, h⟩, trivial⟩
  | submit => exact ⟨⟨hbefore, _, hok⟩, trivial⟩
  -- two events: the failure, and the answer after it
  | @giveUp link =>
    refine ⟨legal_fail (n := 3) hbefore (by decide) hok _, ⟨?_, fun _ _ hmem => ?_⟩, trivial⟩
    · exact Before.append (n := 3) hbefore (by decide : 3 ≤ 7) (by simp [Event.place])
    · rcases List.mem_append.mp hmem with hmem | hmem
      · exact absurd hmem (Before.notMem (n := 3) hbefore rfl (by decide : 3 ≤ 4))
      · simp at hmem
  | notReady h => exact ⟨legal_fail (n := 3) hbefore (by decide) hok.1 _, trivial⟩
  | wake h => exact ⟨⟨hbefore, hok.2⟩, trivial⟩
  | restarted h => exact ⟨legal_fail (n := 4) hbefore (by decide) hok.began _, trivial⟩
  | deviceNow h => exact ⟨legal_fail (n := 4) hbefore (by decide) hok.began _, trivial⟩
  | loggedInNow h => exact ⟨legal_fail (n := 4) hbefore (by decide) hok.1.began _, trivial⟩
  | busyNow h => exact ⟨legal_fail (n := 4) hbefore (by decide) hok.1.began _, trivial⟩
  | start =>
    obtain ⟨hcurrent, hdevice, hlogin, hidle⟩ := hok
    exact ⟨⟨hbefore, ⟨_, hcurrent.began⟩, hcurrent.active, hdevice, hlogin, hidle⟩, trivial⟩
  | @code link h now code =>
    refine ⟨⟨hbefore, _, _, hok.2⟩, ⟨?_, ⟨_, _, hok.1.append _⟩, by simp⟩, trivial⟩
    exact Before.append (n := 5) hbefore (by decide : 5 ≤ 6) (by simp [Event.place])
  | @noCode link h error =>
    refine ⟨⟨hbefore, _, _, hok.2⟩, ⟨?_, ⟨_, _, hok.1.append _⟩, fun code hmem => ?_⟩, trivial⟩
    · exact Before.append (n := 5) hbefore (by decide : 5 ≤ 6) (by simp [Event.place])
    · rcases List.mem_append.mp hmem with hmem | hmem
      · exact absurd hmem (Before.notMem (n := 5) hbefore rfl (by decide : 5 ≤ 5))
      · simp at hmem
  | idle h => trivial
  | pick h => trivial
  | noDevice h => trivial
  | unpaired h => trivial
  | unavailable => trivial
  | current h => trivial
  | stored h => trivial
  | free h => trivial
  | starting h => trivial

/-- It gets to its next place with what it has seen. -/
theorem Move.phaseOk (h : Move (World.after log) segment k phase es segment' phase')
    (hok : PhaseOk log segment k phase) : PhaseOk (log ++ es) segment' k phase' := by
  cases h with
  | request phone => exact List.mem_append_right _ (List.mem_singleton.mpr rfl)
  | idle h =>
    rw [List.append_nil]
    exact ⟨hok, .now hok h⟩
  | pick h =>
    rw [List.append_nil]
    exact ⟨hok.1, hok.2, .now hok.1 h⟩
  | noDevice h =>
    rw [List.append_nil]
    exact ⟨hok.1, hok.2, .now hok.1 h⟩
  | unpaired h =>
    rw [List.append_nil]
    exact ⟨hok.1, hok.2.1, hok.2.2, .now hok.1 h⟩
  | begin now h => exact ⟨now, List.mem_append_right _ (List.mem_singleton.mpr rfl)⟩
  | submit => exact ⟨Began.append hok _, List.mem_append_right _ (List.mem_singleton.mpr rfl)⟩
  | unavailable =>
    rw [List.append_nil]
    exact hok
  | wake h =>
    exact ⟨hok.1.append _, List.mem_append_right _ (List.mem_singleton.mpr rfl), rfl⟩
  | current h =>
    rw [List.append_nil]
    exact ⟨hok, h⟩
  | stored h =>
    rw [List.append_nil]
    exact ⟨hok, .now hok.woken h⟩
  | free h =>
    rw [List.append_nil]
    exact ⟨hok.1, hok.2, .now hok.1.woken h⟩
  | starting h =>
    rw [List.append_nil]
    exact ⟨hok.1, hok.2.1, hok.2.2, .now hok.1.woken h⟩
  | start => exact ⟨hok.1.began.append _, List.mem_append_right _ (List.mem_singleton.mpr rfl)⟩
  -- what ends the task leaves nothing to keep
  | busy h => trivial
  | clientStarting h => trivial
  | device h => trivial
  | loggedIn h => trivial
  | refuse now h => trivial
  | giveUp => trivial
  | notReady h => trivial
  | restarted h => trivial
  | deviceNow h => trivial
  | loggedInNow h => trivial
  | busyNow h => trivial
  | code h now code => trivial
  | noCode h error => trivial

/-! ### The linking code in the status -/

theorem pairCode_outside (s : DeviceStatus) (now : Instant) {op : StatusOp} (h : isOutside op = true) :
    (op.run s now).pairCode = s.pairCode ∨ (op.run s now).pairCode = .idle := by
  cases op with
  | setConnected pn lid => exact Or.inr rfl
  | setQrCode code => exact Or.inl rfl
  | clearQrCode => exact Or.inl rfl
  | setDisconnected => exact Or.inl rfl
  | setLoggedOut => exact Or.inl rfl
  | recordMessage entry => exact Or.inl rfl
  | beginPairCode => cases h
  | completePairCode requestId code validFor => cases h
  | failPairCode requestId message => cases h

/-- A code is being generated after an event if the event has begun it, or if it was being generated
before and the event is no answer to it. -/
theorem Legal.pending {id : UInt32} (h : Legal log e)
    (hpending : ((World.after log).apply e).status.pairCode = .pending id) :
    (∃ k link now, e = .begun k link now ∧ link.requestId = id) ∨
      ((World.after log).status.pairCode = .pending id ∧ e.answers id = false) := by
  cases e with
  | begun k link now =>
    obtain ⟨-, -, -, -, -, hbegin⟩ := h
    have heq := beginPairCode_of_vacant (beginPairCode_ok_iff.mp ⟨_, hbegin⟩)
    rw [heq] at hbegin
    have hid : (World.after log).status.nextPairCodeRequest = id := by
      have hstatus : ((World.after log).status.beginPairCode now).2.pairCode = .pending id := hpending
      rw [heq] at hstatus
      exact PairCodeState.pending.inj hstatus
    -- the id is the one just handed out
    exact Or.inl ⟨k, link, now, rfl, (Except.ok.inj hbegin).symm.trans hid⟩
  | complete k requestId now code =>
    have hstatus : ((World.after log).status.completePairCode now requestId code
      codeValidFor).pairCode = .pending id := hpending
    rw [DeviceStatus.completePairCode] at hstatus
    -- an answer to this id would have changed the status
    split_ifs at hstatus with his
    refine Or.inr ⟨hstatus, ?_⟩
    rw [hstatus] at his
    simpa [DeviceStatus.pairCodeRequestIs, Event.answers, eq_comm] using his
  | fail k requestId message =>
    have hstatus : ((World.after log).status.failPairCode requestId message).pairCode =
      .pending id := hpending
    rw [DeviceStatus.failPairCode] at hstatus
    split_ifs at hstatus with his
    refine Or.inr ⟨hstatus, ?_⟩
    rw [hstatus] at his
    simpa [DeviceStatus.pairCodeRequestIs, Event.answers, eq_comm] using his
  | status now op =>
    have hstatus : (op.run (World.after log).status now).pairCode = .pending id := hpending
    rcases pairCode_outside (World.after log).status now h with hsame | hidle
    · exact Or.inr ⟨hsame ▸ hstatus, rfl⟩
    · rw [hidle] at hstatus
      cases hstatus
  | active client => exact Or.inr ⟨hpending, rfl⟩
  | maintenance idle => exact Or.inr ⟨hpending, rfl⟩
  | device deviceExists => exact Or.inr ⟨hpending, rfl⟩
  | login client loggedIn => exact Or.inr ⟨hpending, rfl⟩
  | request k phone => exact Or.inr ⟨hpending, rfl⟩
  | answer k answer => exact Or.inr ⟨hpending, rfl⟩
  | woken k => exact Or.inr ⟨hpending, rfl⟩
  | pairStart k client phone => exact Or.inr ⟨hpending, rfl⟩
  | pairEnd k result => exact Or.inr ⟨hpending, rfl⟩

theorem LegalRun.pending {id : UInt32} (h : LegalRun log es)
    (hpending : (World.after (log ++ es)).status.pairCode = .pending id) :
    (∃ k link now, .begun k link now ∈ es ∧ link.requestId = id) ∨
      ((World.after log).status.pairCode = .pending id ∧ ∀ e ∈ es, e.answers id = false) := by
  induction es generalizing log with
  | nil =>
    rw [List.append_nil] at hpending
    exact Or.inr ⟨hpending, by simp⟩
  | cons e es ih =>
    rw [List.append_cons] at hpending
    rcases ih h.2 hpending with ⟨k, link, now, hmem, hid⟩ | ⟨hbefore, hes⟩
    · exact Or.inl ⟨k, link, now, List.mem_cons_of_mem e hmem, hid⟩
    · rw [World.after_append] at hbefore
      rcases h.1.pending hbefore with ⟨k, link, now, rfl, hid⟩ | ⟨hlog, he⟩
      · exact Or.inl ⟨k, link, now, List.mem_cons_self, hid⟩
      · exact Or.inr ⟨hlog, List.forall_mem_cons.mpr ⟨he, hes⟩⟩

/-- A code that is shown came with an event, and expires in time. -/
def Generated (log : List Event) (code : String) (expiresAt : Instant) : Prop :=
  ∃ k requestId now, .complete k requestId now code ∈ log ∧ expiresAt = now + codeValidFor

theorem Legal.ready {code : String} {expiresAt : Instant} (h : Legal log e)
    (hready : ((World.after log).apply e).status.pairCode = .ready code expiresAt) :
    (World.after log).status.pairCode = .ready code expiresAt ∨
      Generated (log ++ [e]) code expiresAt := by
  cases e with
  | begun k link now =>
    have hstatus : ((World.after log).status.beginPairCode now).2.pairCode =
      .ready code expiresAt := hready
    by_cases hvacant : Vacant (World.after log).status.pairCode now
    · rw [beginPairCode_of_vacant hvacant] at hstatus
      cases hstatus
    · obtain ⟨message, heq⟩ := beginPairCode_of_not_vacant hvacant
      rw [heq] at hstatus
      exact Or.inl hstatus
  | complete k requestId now code' =>
    have hstatus : ((World.after log).status.completePairCode now requestId code'
      codeValidFor).pairCode = .ready code expiresAt := hready
    rw [DeviceStatus.completePairCode] at hstatus
    split_ifs at hstatus with his
    · injection hstatus with hcode hexpires
      subst hcode
      -- the answer to the pending attempt: the code that is shown was made for it
      exact Or.inr ⟨k, requestId, now, by simp, hexpires.symm⟩
    · exact Or.inl hstatus
  | fail k requestId message =>
    have hstatus : ((World.after log).status.failPairCode requestId message).pairCode =
      .ready code expiresAt := hready
    rw [DeviceStatus.failPairCode] at hstatus
    split_ifs at hstatus with his
    exact Or.inl hstatus
  | status now op =>
    have hstatus : (op.run (World.after log).status now).pairCode = .ready code expiresAt := hready
    rcases pairCode_outside (World.after log).status now h with hsame | hidle
    · exact Or.inl (hsame ▸ hstatus)
    · rw [hidle] at hstatus
      cases hstatus
  | active client => exact Or.inl hready
  | maintenance idle => exact Or.inl hready
  | device deviceExists => exact Or.inl hready
  | login client loggedIn => exact Or.inl hready
  | request k phone => exact Or.inl hready
  | answer k answer => exact Or.inl hready
  | woken k => exact Or.inl hready
  | pairStart k client phone => exact Or.inl hready
  | pairEnd k result => exact Or.inl hready

theorem Generated.append {code : String} {expiresAt : Instant} (h : Generated log code expiresAt)
    (es : List Event) : Generated (log ++ es) code expiresAt := by
  obtain ⟨k, requestId, now, hmem, hexpires⟩ := h
  exact ⟨k, requestId, now, List.mem_append_left _ hmem, hexpires⟩

/-- Every code that is shown was generated. -/
def ReadyOk (log : List Event) : Prop :=
  ∀ code expiresAt, (World.after log).status.pairCode = .ready code expiresAt →
    Generated log code expiresAt

theorem LegalRun.readyOk (h : LegalRun log es) (hready : ReadyOk log) : ReadyOk (log ++ es) := by
  induction es generalizing log with
  | nil => rwa [List.append_nil]
  | cons e es ih =>
    rw [List.append_cons]
    refine ih h.2 fun code expiresAt hshown => ?_
    rw [World.after_append] at hshown
    rcases h.1.ready hshown with hbefore | hnew
    · exact (hready code expiresAt hbefore).append [e]
    · exact hnew

/-- A request that is at work on an attempt stays at work on it, or answers it. -/
theorem Move.stays {w : World} (h : Move w segment k phase es segment' phase')
    (hlink : phase.link? = some link) :
    phase'.link? = some link ∨ ∃ e ∈ es, e.answers link.requestId = true := by
  cases h <;> cases hlink <;> simp [Phase.link?, Event.answers]

/-- The request that begins an attempt is at work on it. -/
theorem Move.atWork {w : World} (h : Move w segment k phase es segment' phase') {now : Instant}
    (hmem : .begun j link now ∈ es) : j = k ∧ phase'.link? = some link := by
  cases h <;> simp_all [Phase.link?]

end

/-! ### Runs -/

namespace System

/-- The invariant: the log is legal, and every request stands where the log says. -/
structure Ok (s : System) : Prop where
  legal : Always Legal s.log
  phases : ∀ k, PhaseOk s.log s.segment k (s.phases k)
  before : ∀ k, Before s.log k (s.phases k).place
  segment : ∀ k, s.segment = some k → (s.phases k).running = true
  working : ∀ id, s.world.status.pairCode = .pending id →
    ∃ k link, (s.phases k).link? = some link ∧ link.requestId = id
  ready : ReadyOk s.log

variable {s s' : System} {es : List Event} {k : ℕ} {segment : Option ℕ} {phase : Phase}

theorem ok_initial : Ok initial where
  legal := always_nil
  phases _ := trivial
  before _ e he := by cases he
  segment k h := by cases h
  working id h := by cases h
  ready code expiresAt h := by cases h

/-- The task that gets or keeps the executor is running. -/
theorem move_running {w : World} (h : Move w segment k phase es segment' phase')
    (hrunning : segment = some k → phase.running = true) (hsegment : segment' = some k) :
    phase'.running = true := by
  cases h <;>
    first
      | rfl
      | exact absurd (hrunning hsegment) (by simp [Phase.running])
      | cases hsegment

theorem Ok.move (h : Ok s) (hmove : Move s.world s.segment k (s.phases k) es segment phase) :
    Ok ⟨Function.update s.phases k phase, segment, s.log ++ es⟩ := by
  have hlegal := hmove.legal (h.phases k) (h.before k)
  have hactive : (World.after (s.log ++ es)).active = (World.after s.log).active := by
    rw [World.after_append]
    exact hmove.active
  refine ⟨hlegal.always h.legal, fun j => ?_, fun j => ?_, fun j hj => ?_, fun id hpending => ?_,
    hlegal.readyOk h.ready⟩
  · by_cases hj : j = k
    · subst hj
      simpa using hmove.phaseOk (h.phases j)
    · simp only [Function.update_of_ne hj]
      exact (h.phases j).append fun hsegment => ⟨hmove.segment_eq (h.phases k) hj hsegment, hactive⟩
  · by_cases hj : j = k
    · subst hj
      simpa using hmove.before (h.before j)
    · simp only [Function.update_of_ne hj]
      refine (h.before j).append le_rfl fun e he habout => ?_
      rw [hmove.about e he] at habout
      exact absurd (Option.some.inj habout).symm hj
  · by_cases hjk : j = k
    · subst hjk
      simpa using move_running hmove (h.segment j) hj
    · simp only [Function.update_of_ne hjk]
      -- the executor was not given to another task
      refine h.segment j ?_
      rcases hmove.segment_cases with hsame | hnone | hself
      · exact hsame.symm.trans hj
      · exact nomatch hnone.symm.trans hj
      · exact absurd (Option.some.inj (hj.symm.trans hself)) hjk
  · rcases hlegal.pending hpending with ⟨j, link, now, hmem, hid⟩ | ⟨hbefore, hes⟩
    · obtain ⟨rfl, hlink⟩ := hmove.atWork hmem
      exact ⟨j, link, by simpa using hlink, hid⟩
    · obtain ⟨j, link, hlink, hid⟩ := h.working id hbefore
      by_cases hj : j = k
      · subst hj
        rcases hmove.stays hlink with hstays | ⟨e, he, hanswers⟩
        · exact ⟨j, link, by simpa using hstays, hid⟩
        · rw [hid, hes e he] at hanswers
          cases hanswers
      · exact ⟨j, link, by simpa [Function.update_of_ne hj] using hlink, hid⟩

/-- An event that belongs to no request. -/
theorem Ok.outside (h : Ok s) {e : Event} (hlegal : Legal s.log e) (habout : e.about = none)
    (hactive : s.segment = none ∨ (s.world.apply e).active = s.world.active) :
    Ok ⟨s.phases, s.segment, s.log ++ [e]⟩ := by
  have hrun : LegalRun s.log [e] := ⟨hlegal, trivial⟩
  refine ⟨hrun.always h.legal, fun j => (h.phases j).append fun hsegment => ⟨rfl, ?_⟩,
    fun j => (h.before j).append le_rfl ?_, h.segment, fun id hpending => ?_,
    hrun.readyOk h.ready⟩
  · rcases hactive with hnone | hsame
    · rw [hnone] at hsegment
      cases hsegment
    · rw [World.after_append]
      exact hsame
  · intro e' he' habout'
    rw [List.mem_singleton.mp he', habout] at habout'
    cases habout'
  · rcases hrun.pending hpending with ⟨j, link, now, hmem, -⟩ | ⟨hbefore, -⟩
    · rw [← List.mem_singleton.mp hmem] at habout
      cases habout
    · exact h.working id hbefore

theorem Ok.step (h : Ok s) (hstep : Step s s') : Ok s' := by
  cases hstep with
  | move hmove => exact h.move hmove
  | active client hnone => exact h.outside trivial rfl (Or.inl hnone)
  | maintenance idle => exact h.outside trivial rfl (Or.inr rfl)
  | device deviceExists => exact h.outside trivial rfl (Or.inr rfl)
  | login client loggedIn => exact h.outside trivial rfl (Or.inr rfl)
  | status now op hop => exact h.outside hop rfl (Or.inr rfl)

theorem Reachable.ok (h : Reachable s) : Ok s := by
  induction h with
  | refl => exact ok_initial
  | tail _ hstep ih => exact ih.step hstep

end System

/-- **Linking attempts are made and answered as they should**, in every run of any number of
requests while clients, maintenance, pairing and the status change around them: every event happens
after what it rests on was seen; while the status says that a code is being generated some request
is at work on just this attempt; and a code that is shown was generated, to expire in time. -/
theorem linking_legal {s : System} (h : s.Reachable) :
    Always Legal s.log ∧
    (∀ id, s.world.status.pairCode = .pending id →
      ∃ k link, (s.phases k).link? = some link ∧ link.requestId = id) ∧
    ∀ code expiresAt, s.world.status.pairCode = .ready code expiresAt →
      Generated s.log code expiresAt :=
  ⟨h.ok.legal, h.ok.working, h.ok.ready⟩

/-- A request whose code is being generated. -/
theorem exists_pairing : ∃ s : System, s.Reachable ∧
    s.phases 0 = .pairing ⟨7, "15551234567", 1⟩ ∧ s.segment = none ∧
    s.world = { World.initial with
      status := (DeviceStatus.new.beginPairCode 0).2, active := some 7 } := by
  have hasked : System.Reachable _ :=
    ((Relation.ReflTransGen.single (.active (some 7) rfl)).tail
      (.move (k := 0) (.request "15551234567"))).tail (.move (k := 0) (.idle rfl))
  have hbegun := ((((hasked.tail (.move (k := 0) (.pick rfl))).tail
    (.move (k := 0) (.noDevice rfl))).tail (.move (k := 0) (.unpaired rfl))).tail
      (.move (k := 0) (.begin 0 rfl))).tail (.move (k := 0) .submit)
  have hchecked := ((((hbegun.tail (.move (k := 0) (.wake rfl))).tail
    (.move (k := 0) (.current rfl))).tail (.move (k := 0) (.stored rfl))).tail
      (.move (k := 0) (.free rfl))).tail (.move (k := 0) (.starting rfl))
  have hpairing := hchecked.tail (.move (k := 0) .start)
  exact ⟨_, hpairing, rfl, rfl, rfl⟩

/-- It comes and is shown. -/
theorem requested_code_shown : ∃ s : System, s.Reachable ∧
    s.world.status.pairCode = .ready "ABCD-1234" (5 + codeValidFor) ∧
    Generated s.log "ABCD-1234" (5 + codeValidFor) := by
  obtain ⟨s, hreach, hphase, hsegment, hworld⟩ := exists_pairing
  have hmove : Move s.world s.segment 0 (s.phases 0)
      [.pairEnd 0 (.ok "ABCD-1234"), .complete 0 1 5 "ABCD-1234"] none .finished := by
    rw [hphase]
    exact .code hsegment 5 "ABCD-1234"
  have hdone := hreach.tail (.move hmove)
  have hshown : (World.after (s.log ++ [.pairEnd 0 (.ok "ABCD-1234"),
      .complete 0 1 5 "ABCD-1234"])).status.pairCode = .ready "ABCD-1234" (5 + codeValidFor) := by
    rw [World.after_append, show World.after s.log = s.world from rfl, hworld]
    rfl
  exact ⟨_, hdone, hshown, (linking_legal hdone).2.2 _ _ hshown⟩

/-! ### Attempts end -/

/-- How many moves a request can still make. -/
def Phase.left : Phase → ℕ
  | .absent => 0
  | .asked _ => 13
  | .idle _ => 12
  | .picked _ _ => 11
  | .noDevice _ _ => 10
  | .unpaired _ _ => 9
  | .begun _ => 8
  | .unavailable _ => 1
  | .waiting _ => 7
  | .woken _ => 6
  | .current _ => 5
  | .stored _ => 4
  | .free _ => 3
  | .starting _ => 2
  | .pairing _ => 1
  | .finished => 0

/-- A request that was made moves on. -/
inductive Work (s : System) : System → Prop
  | move {k : ℕ} {es : List Event} {segment : Option ℕ} {phase : Phase} (hk : s.phases k ≠ .absent)
      (h : Move s.world s.segment k (s.phases k) es segment phase) :
      Work s ⟨Function.update s.phases k phase, segment, s.log ++ es⟩

/-- A run without new requests in which those there are make `n` moves. -/
inductive Works (s : System) : ℕ → System → Prop
  | refl : Works s 0 s
  | work {n : ℕ} {s' s'' : System} (h : Works s n s') (hwork : Work s' s'') : Works s (n + 1) s''
  | outside {n : ℕ} {s' s'' : System} (h : Works s n s') (hstep : System.Step s' s'')
      (hphases : s''.phases = s'.phases) : Works s n s''

section

variable {s s' : System} {es : List Event} {k m n : ℕ} {segment segment' : Option ℕ}
  {phase phase' : Phase} {w : World}

theorem Move.left_lt (h : Move w segment k phase es segment' phase') (hk : phase ≠ .absent) :
    phase'.left < phase.left := by
  cases h <;> first | exact absurd rfl hk | simp [Phase.left]

/-- All requests that were made are below a bound. -/
def AllBelow (s : System) (m : ℕ) : Prop := ∀ k, m ≤ k → s.phases k = .absent

theorem Work.allBelow (h : Work s s') (hbelow : AllBelow s m) : AllBelow s' m := by
  obtain ⟨hk, -⟩ := h
  rename_i k _ _ _
  intro j hj
  have hjk : j ≠ k := by
    rintro rfl
    exact hk (hbelow j hj)
  exact (Function.update_of_ne hjk ..).trans (hbelow j hj)

/-- The moves that are left get fewer. -/
theorem Work.sum_lt (h : Work s s') (hbelow : AllBelow s m) :
    ∑ k ∈ Finset.range m, (s'.phases k).left < ∑ k ∈ Finset.range m, (s.phases k).left := by
  obtain ⟨hk, hmove⟩ := h
  rename_i k _ _ _
  have hlt := hmove.left_lt hk
  refine Finset.sum_lt_sum (fun j _ => ?_) ⟨k, ?_, by simpa using hlt⟩
  · by_cases hj : j = k
    · subst hj
      simpa using hlt.le
    · simp [Function.update_of_ne hj]
  · rw [Finset.mem_range]
    by_contra hge
    exact hk (hbelow k (not_lt.mp hge))

theorem Works.allBelow (h : Works s n s') (hbelow : AllBelow s m) : AllBelow s' m := by
  induction h with
  | refl => exact hbelow
  | work _ hwork ih => exact hwork.allBelow ih
  | outside _ _ hphases ih =>
    intro k hk
    rw [hphases]
    exact ih k hk

theorem Works.add_sum_le (h : Works s n s') (hbelow : AllBelow s m) :
    n + ∑ k ∈ Finset.range m, (s'.phases k).left ≤ ∑ k ∈ Finset.range m, (s.phases k).left := by
  induction h with
  | refl => rw [Nat.zero_add]
  | work hworks hwork ih =>
    have hlt := hwork.sum_lt (hworks.allBelow hbelow)
    omega
  | outside _ _ hphases ih =>
    rw [hphases]
    exact ih

theorem System.Reachable.allBelow (h : s.Reachable) : ∃ m, AllBelow s m := by
  induction h with
  | refl => exact ⟨0, fun _ _ => rfl⟩
  | tail _ hstep ih =>
    obtain ⟨m, hm⟩ := ih
    cases hstep with
    | @move k _ _ _ hmove =>
      refine ⟨max m (k + 1), fun j hj => ?_⟩
      have hjk : j ≠ k := by omega
      exact (Function.update_of_ne hjk ..).trans (hm j (by omega))
    | active client hnone => exact ⟨m, hm⟩
    | maintenance idle => exact ⟨m, hm⟩
    | device deviceExists => exact ⟨m, hm⟩
    | login client loggedIn => exact ⟨m, hm⟩
    | status now op hop => exact ⟨m, hm⟩

/-- A task that has the executor comes to its next await. -/
theorem exists_move_of_running (w : World) (segment : Option ℕ) (k : ℕ)
    (hrunning : phase.running = true) : ∃ es segment' phase', Move w segment k phase es segment' phase' := by
  cases phase with
  | woken link =>
    by_cases hactive : w.active = some link.client
    · exact ⟨_, _, _, .current hactive⟩
    · exact ⟨_, _, _, .restarted hactive⟩
  | current link =>
    cases hdevice : w.deviceExists with
    | true => exact ⟨_, _, _, .deviceNow hdevice⟩
    | false => exact ⟨_, _, _, .stored hdevice⟩
  | stored link =>
    cases hlogin : w.loggedIn link.client with
    | true => exact ⟨_, _, _, .loggedInNow hlogin⟩
    | false => exact ⟨_, _, _, .free hlogin⟩
  | free link =>
    cases hidle : w.idle with
    | true => exact ⟨_, _, _, .starting hidle⟩
    | false => exact ⟨_, _, _, .busyNow hidle⟩
  | starting link => exact ⟨_, _, _, .start⟩
  | _ => cases hrunning

/-- While nobody has the executor, a request that is at work can move. -/
theorem exists_move_of_link (w : World) (k : ℕ) {link : Link} (hlink : phase.link? = some link) :
    ∃ es segment' phase', Move w none k phase es segment' phase' := by
  cases phase with
  | begun link => exact ⟨_, _, _, .submit⟩
  | unavailable link => exact ⟨_, _, _, .giveUp⟩
  | waiting link => exact ⟨_, _, _, .wake rfl⟩
  | pairing link => exact ⟨_, _, _, .code rfl 0 ""⟩
  | woken link => exact exists_move_of_running w none k rfl
  | current link => exact exists_move_of_running w none k rfl
  | stored link => exact exists_move_of_running w none k rfl
  | free link => exact exists_move_of_running w none k rfl
  | starting link => exact exists_move_of_running w none k rfl
  | _ => cases hlink

theorem System.Ok.exists_work (h : s.Ok) {id : UInt32}
    (hpending : s.world.status.pairCode = .pending id) : ∃ s', Work s s' := by
  cases hsegment : s.segment with
  | some j =>
    have hrunning := h.segment j hsegment
    obtain ⟨es, segment, phase, hmove⟩ := exists_move_of_running s.world s.segment j hrunning
    refine ⟨_, .move (fun habsent => ?_) hmove⟩
    rw [habsent] at hrunning
    cases hrunning
  | none =>
    obtain ⟨k, link, hlink, -⟩ := h.working id hpending
    obtain ⟨es, segment, phase, hmove⟩ := exists_move_of_link s.world k hlink
    refine ⟨_, .move (k := k) (fun habsent => ?_) (hsegment ▸ hmove)⟩
    rw [habsent] at hlink
    cases hlink

end

/-- **Linking attempts end.**  However the awaits turn out and whatever happens in between, the
requests there are make a bounded number of moves, and while a code is being generated one of them
can move: the status does not say so for ever. -/
theorem linking_ends {s : System} (h : s.Reachable) :
    (∃ bound, ∀ n s', Works s n s' → n ≤ bound) ∧
    ∀ id, s.world.status.pairCode = .pending id → ∃ s', Work s s' := by
  obtain ⟨m, hm⟩ := h.allBelow
  refine ⟨⟨∑ k ∈ Finset.range m, (s.phases k).left, fun n s' hworks => ?_⟩,
    fun id => h.ok.exists_work⟩
  have hle := hworks.add_sum_le hm
  omega

/-- While the code of the one request is awaited, that can still go on. -/
theorem awaited_code_comes : ∃ s : System, s.Reachable ∧
    s.world.status.pairCode = .pending 1 ∧ ∃ s', Work s s' := by
  obtain ⟨s, hreach, -, -, hworld⟩ := exists_pairing
  have hpending : s.world.status.pairCode = .pending 1 := by
    rw [hworld]
    rfl
  exact ⟨s, hreach, hpending, (linking_ends hreach).2 1 hpending⟩

end PairTask

end WhatsappEsp32
