import Mathlib.Logic.Function.Basic
import Mathlib.Logic.Relation
import WhatsappEsp32.Admin.QuietPeriod
import WhatsappEsp32.Lib.Trace

/-!
# Sends from the dashboard

`POST /send` gives a task to the executor and waits at most `SEND_TIMEOUT` for its result.  On
boards without PSRAM the task first takes the shared timer, waits for a quiet moment, gives up the
timer again when it has the memory gate, and holds the gate until it is done; HTTP requests and the
bot's own replies use the same gate.  Meanwhile the handler may time out and the client may be
replaced.

* `World`: what the parties share, and what has become of each request; `Event`, `World.apply`;
* `Task`, `Move`: the task of a request, one await or check at a time, with
  `wait_for_send_admission` and `acquire_cancellable`; `Handler`, `Turn`: its handler;
* `System`, `System.Step`: any number of requests, clients that come and go, and other users of the
  gate;
* `Legal`: what the world must be like when an event happens; `sends_legal`: it is so in every run,
  and the answers are true;
* `locks_return`: whoever holds the gate or the timer can give it back by moves of its own.
-/

namespace WhatsappEsp32

open Trace

namespace SendTask

/-! ### The world -/

/-- Who holds the memory gate. -/
inductive Owner
  | task (k : ℕ)
  /-- An HTTP request, or a reply of the bot. -/
  | other
  deriving DecidableEq

/-- What the handler answers. -/
inductive Answer
  /-- 200, with the id of the message. -/
  | sent (messageId : String)
  /-- 502. -/
  | failed (error : String)
  /-- 504. -/
  | timeout
  /-- 503: not connected, or the executor takes no task. -/
  | refused
  deriving DecidableEq

/-- The id of the message that was sent, or why it was not. -/
abbrev Outcome := Except String String

/-- What happens to the client, the locks, the tasks and the handlers. -/
inductive Event
  /-- `active_client.set` or `clear_if`. -/
  | active (client : Option ℕ)
  /-- The handler of request `k` has found the client. -/
  | request (k client : ℕ)
  | lockTimer (k : ℕ)
  | unlockTimer (k : ℕ)
  | acquire (owner : Owner)
  | release (owner : Owner)
  /-- `abandoned.store(true)`. -/
  | abandon (k : ℕ)
  /-- The task has been admitted and was not abandoned. -/
  | cleared (k : ℕ)
  | sendStart (k client : ℕ)
  | sendEnd (k : ℕ) (outcome : Outcome)
  /-- `result_tx.send`. -/
  | report (k : ℕ) (outcome : Outcome)
  | answer (k : ℕ) (answer : Answer)

/-- The active client, the gate and the timer, and for each request its client, its flag, its
channel, and what it has come to. -/
structure World where
  active : Option ℕ
  gate : Option Owner
  timer : Option ℕ
  client : ℕ → Option ℕ
  abandoned : ℕ → Bool
  reported : ℕ → Option Outcome
  cleared : ℕ → Bool
  started : ℕ → Bool
  sent : ℕ → Option Outcome
  answered : ℕ → Option Answer

namespace World

/-- No client, all locks free, no requests. -/
def initial : World :=
  ⟨none, none, none, fun _ => none, fun _ => false, fun _ => none, fun _ => false, fun _ => false,
    fun _ => none, fun _ => none⟩

/-- The world after an event. -/
def apply (w : World) : Event → World
  | .active client => { w with active := client }
  | .request k client => { w with client := Function.update w.client k (some client) }
  | .lockTimer k => { w with timer := some k }
  | .unlockTimer _ => { w with timer := none }
  | .acquire owner => { w with gate := some owner }
  | .release _ => { w with gate := none }
  | .abandon k => { w with abandoned := Function.update w.abandoned k true }
  | .cleared k => { w with cleared := Function.update w.cleared k true }
  | .sendStart k _ => { w with started := Function.update w.started k true }
  | .sendEnd k outcome => { w with sent := Function.update w.sent k (some outcome) }
  | .report k outcome => { w with reported := Function.update w.reported k (some outcome) }
  | .answer k answer => { w with answered := Function.update w.answered k (some answer) }

/-- The world after what has happened. -/
def after (log : List Event) : World := log.foldl apply initial

end World

/-! ### The task -/

/-- Where the task of a request is: before the await or check that the name says. -/
inductive Task
  | absent
  | lockTimer
  /-- The check at the head of the loop of `wait_for_send_admission`. -/
  | polling (period : QuietPeriod)
  /-- `client.memory_report().await`. -/
  | measuring (period : QuietPeriod)
  /-- `timer.after(100 ms).await`. -/
  | sleeping (period : QuietPeriod)
  /-- The check at the head of the loop of `acquire_cancellable`. -/
  | acquiring
  /-- `select(acquire, ticks.next()).await`. -/
  | selecting
  /-- It has a permit, before the second check. -/
  | holding
  /-- It cannot be admitted. -/
  | refusing (error : String)
  /-- Admitted, before the look at the flag. -/
  | admitted
  /-- Before the look at the active client. -/
  | current
  | sending
  | reporting (outcome : Outcome)
  /-- The permit goes out of scope. -/
  | leaving
  | finished

/-- The text of both refusals in `wait_for_send_admission`. -/
def cancelledText : String := "send cancelled while waiting for transient-memory admission"

/-- The failure of a request whose client was replaced. -/
def reconnectedText : String := "WhatsApp client reconnected; try again"

/-- `abandoned.load() || !client.is_logged_in()`. -/
def World.cancelled (w : World) (loggedIn : ℕ → Bool) (k : ℕ) : Bool :=
  w.abandoned k || !(w.client k).any loggedIn

/-- The permit, if there is a gate. -/
def releasing (gated : Bool) (k : ℕ) : List Event := if gated then [.release (.task k)] else []

/-- The next step of the task of request `k`. -/
inductive Move (gated : Bool) (w : World) (loggedIn : ℕ → Bool) (k : ℕ) :
    Task → List Event → Task → Prop
  | lockTimer (now : Instant) (h : w.timer = none) :
      Move gated w loggedIn k .lockTimer [.lockTimer k] (.polling (.new now))
  | cancelPolling {period : QuietPeriod} (h : w.cancelled loggedIn k = true) :
      Move gated w loggedIn k (.polling period) [.unlockTimer k] (.refusing cancelledText)
  | poll {period : QuietPeriod} (h : w.cancelled loggedIn k = false) :
      Move gated w loggedIn k (.polling period) [] (.measuring period)
  | ready {period : QuietPeriod} (now : Instant) (quiet : Bool)
      (h : (period.ready now quiet).1 = true) :
      Move gated w loggedIn k (.measuring period) [] .acquiring
  | wait {period : QuietPeriod} (now : Instant) (quiet : Bool)
      (h : (period.ready now quiet).1 = false) :
      Move gated w loggedIn k (.measuring period) [] (.sleeping (period.ready now quiet).2)
  | wake {period : QuietPeriod} : Move gated w loggedIn k (.sleeping period) [] (.polling period)
  | sleepError {period : QuietPeriod} (error : String) :
      Move gated w loggedIn k (.sleeping period) [.unlockTimer k] (.refusing error)
  | cancelAcquiring (h : w.cancelled loggedIn k = true) :
      Move gated w loggedIn k .acquiring [.unlockTimer k] (.refusing cancelledText)
  | acquire (h : w.cancelled loggedIn k = false) : Move gated w loggedIn k .acquiring [] .selecting
  | permit (h : w.gate = none) :
      Move gated w loggedIn k .selecting [.acquire (.task k)] .holding
  | tick : Move gated w loggedIn k .selecting [] .acquiring
  | tickError (error : String) :
      Move gated w loggedIn k .selecting [.unlockTimer k] (.refusing error)
  /-- A permit that came too late is dropped. -/
  | cancelHolding (h : w.cancelled loggedIn k = true) :
      Move gated w loggedIn k .holding [.release (.task k), .unlockTimer k]
        (.refusing cancelledText)
  | enter (h : w.cancelled loggedIn k = false) :
      Move gated w loggedIn k .holding [.unlockTimer k] .admitted
  | refuse (error : String) :
      Move gated w loggedIn k (.refusing error) [.report k (.error error)] .finished
  | abandoned (h : w.abandoned k = true) : Move gated w loggedIn k .admitted [] .leaving
  | clear (h : w.abandoned k = false) : Move gated w loggedIn k .admitted [.cleared k] .current
  | send {client : ℕ} (hclient : w.client k = some client) (hactive : w.active = some client) :
      Move gated w loggedIn k .current [.sendStart k client] .sending
  | reconnected (h : ∀ client, w.client k = some client → w.active ≠ some client) :
      Move gated w loggedIn k .current [] (.reporting (.error reconnectedText))
  | sent (outcome : Outcome) :
      Move gated w loggedIn k .sending [.sendEnd k outcome] (.reporting outcome)
  | report (outcome : Outcome) :
      Move gated w loggedIn k (.reporting outcome) [.report k outcome] .leaving
  | leave : Move gated w loggedIn k .leaving (releasing gated k) .finished

/-! ### The handler -/

/-- Where the handler of a request is. -/
inductive Handler
  | absent
  /-- It has the client. -/
  | picked
  /-- `result_rx.recv_timeout(SEND_TIMEOUT)`. -/
  | waiting
  /-- Before `abandoned.store(true)`. -/
  | timedOut
  | gaveUp
  | answered

/-- The answer for what the task has reported. -/
def Answer.ofOutcome : Outcome → Answer
  | .ok messageId => .sent messageId
  | .error error => .failed error

/-- The next step of the handler of request `k`; the last component is the task it submits. -/
inductive Turn (gated : Bool) (w : World) (loggedIn : ℕ → Bool) (k : ℕ) :
    Handler → List Event → Handler → Option Task → Prop
  | pick {client : ℕ} (h : w.active = some client) :
      Turn gated w loggedIn k .absent [.request k client] .picked none
  | notConnected (h : (w.client k).any loggedIn = false) :
      Turn gated w loggedIn k .picked [.answer k .refused] .answered none
  /-- `task_tx.try_send(task)` fails. -/
  | unavailable : Turn gated w loggedIn k .picked [.answer k .refused] .answered none
  | submit (h : (w.client k).any loggedIn = true) :
      Turn gated w loggedIn k .picked [] .waiting (some (if gated then .lockTimer else .admitted))
  | receive {outcome : Outcome} (h : w.reported k = some outcome) :
      Turn gated w loggedIn k .waiting [.answer k (.ofOutcome outcome)] .answered none
  | timeout (h : w.reported k = none) : Turn gated w loggedIn k .waiting [] .timedOut none
  | abandon : Turn gated w loggedIn k .timedOut [.abandon k] .gaveUp none
  | giveUp : Turn gated w loggedIn k .gaveUp [.answer k .timeout] .answered none

/-! ### The system -/

/-- The world, the tasks and the handlers of all requests, and the log. -/
structure System where
  world : World
  loggedIn : ℕ → Bool
  tasks : ℕ → Task
  handlers : ℕ → Handler
  log : List Event

namespace System

/-- No requests yet. -/
def initial : System := ⟨.initial, fun _ => false, fun _ => .absent, fun _ => .absent, []⟩

/-- What has happened is written down. -/
def emit (s : System) (es : List Event) : System :=
  { s with world := es.foldl World.apply s.world, log := s.log ++ es }

/-- A task or a handler moves on, or something else happens to the client or the locks. -/
inductive Step (gated : Bool) : System → System → Prop
  | task {s : System} {k : ℕ} {es : List Event} {task : Task}
      (h : Move gated s.world s.loggedIn k (s.tasks k) es task) :
      Step gated s { s.emit es with tasks := Function.update s.tasks k task }
  | handler {s : System} {k : ℕ} {es : List Event} {handler : Handler} {task : Option Task}
      (h : Turn gated s.world s.loggedIn k (s.handlers k) es handler task) :
      Step gated s { s.emit es with
        handlers := Function.update s.handlers k handler
        tasks := task.elim s.tasks fun task => Function.update s.tasks k task }
  /-- Clients come and go, log in and out. -/
  | active {s : System} (client : Option ℕ) : Step gated s (s.emit [.active client])
  | login {s : System} (loggedIn : ℕ → Bool) : Step gated s { s with loggedIn }
  | otherAcquire {s : System} (h : s.world.gate = none) :
      Step gated s (s.emit [.acquire .other])
  | otherRelease {s : System} (h : s.world.gate = some .other) :
      Step gated s (s.emit [.release .other])

/-- Any finite run from the start. -/
def Reachable (gated : Bool) (s : System) : Prop :=
  Relation.ReflTransGen (Step gated) initial s

end System

/-! ### What may happen when -/

/-- What the world must be like when an event happens.  A send starts through the client that the
handler has found, which is active now, once, with the gate in hand, and only if the task was not
abandoned when it looked; what is reported is how the send has ended, or that there was none; and
the answer is what was reported. -/
def Legal (gated : Bool) (w : World) : Event → Prop
  | .active _ => True
  | .request k client => w.client k = none ∧ w.active = some client
  | .lockTimer _ => w.timer = none
  | .unlockTimer k => w.timer = some k
  | .acquire _ => w.gate = none
  | .release owner => w.gate = some owner
  | .abandon k => w.answered k = none
  | .cleared k => w.abandoned k = false ∧ w.cleared k = false
  | .sendStart k client => w.client k = some client ∧ w.active = some client ∧
    w.cleared k = true ∧ w.started k = false ∧ w.reported k = none ∧
    (gated = true → w.gate = some (.task k))
  | .sendEnd k _ => w.started k = true ∧ w.sent k = none ∧
    (gated = true → w.gate = some (.task k))
  | .report k outcome => w.reported k = none ∧
    (w.sent k = some outcome ∨ w.started k = false ∧ ∃ error, outcome = .error error)
  | .answer k answer => w.answered k = none ∧
    match answer with
    | .sent messageId => w.reported k = some (.ok messageId)
    | .failed error => w.reported k = some (.error error)
    | .timeout => w.abandoned k = true
    | .refused => w.started k = false ∧ w.reported k = none

/-- What a request was answered is true: 200 names a message that was sent, 502 the error of the
send, unless there was no send; and after 503 there was none. -/
def Truthful (w : World) (k : ℕ) : Prop :=
  match w.answered k with
  | some (.sent messageId) => w.sent k = some (.ok messageId)
  | some (.failed error) => w.sent k = some (.error error) ∨ w.started k = false
  | some .timeout => w.abandoned k = true
  | some .refused => w.started k = false
  | none => True

/-! ### The invariant -/

/-- Nothing has come of the request yet. -/
structure Fresh (w : World) (k : ℕ) : Prop where
  cleared : w.cleared k = false
  started : w.started k = false
  sent : w.sent k = none
  reported : w.reported k = none

/-- The task has its permit, if there is a gate. -/
def Permitted (gated : Bool) (w : World) (k : ℕ) : Prop := gated = true → w.gate = some (.task k)

/-- What the world says about where a task is. -/
def TaskOk (gated : Bool) (w : World) (k : ℕ) : Task → Prop
  | .absent | .lockTimer | .refusing _ => Fresh w k
  | .polling _ | .measuring _ | .sleeping _ | .acquiring | .selecting =>
    Fresh w k ∧ w.timer = some k
  | .holding => Fresh w k ∧ w.timer = some k ∧ w.gate = some (.task k)
  | .admitted => Fresh w k ∧ Permitted gated w k
  | .current => w.cleared k = true ∧ w.started k = false ∧ w.sent k = none ∧ w.reported k = none ∧
    Permitted gated w k
  | .sending => w.started k = true ∧ w.sent k = none ∧ w.reported k = none ∧ Permitted gated w k
  | .reporting outcome => w.reported k = none ∧ Permitted gated w k ∧
    (w.sent k = some outcome ∨ w.started k = false ∧ ∃ error, outcome = .error error)
  | .leaving => Permitted gated w k
  | .finished => True

/-- What the world says about where a handler is, and about the task it has submitted. -/
def HandlerOk (w : World) (k : ℕ) (task : Task) : Handler → Prop
  | .absent => w.client k = none ∧ w.answered k = none ∧ task = .absent
  | .picked => w.answered k = none ∧ task = .absent
  | .waiting => w.answered k = none
  | .timedOut => w.answered k = none
  | .gaveUp => w.answered k = none ∧ w.abandoned k = true
  | .answered => True

/-- What was reported is how the send has ended, or that there was none. -/
def ReportOk (w : World) (k : ℕ) : Prop :=
  ∀ outcome, w.reported k = some outcome →
    w.sent k = some outcome ∨ w.started k = false ∧ ∃ error, outcome = .error error

/-- What the answer rests on. -/
def AnswerOk (w : World) (k : ℕ) (task : Task) : Prop :=
  ∀ answer, w.answered k = some answer →
    match answer with
    | .sent messageId => w.reported k = some (.ok messageId)
    | .failed error => w.reported k = some (.error error)
    | .timeout => w.abandoned k = true
    | .refused => task = .absent

/-- The invariant: the log is legal, and tasks, handlers, reports and answers stand where it says.
-/
structure System.Ok (gated : Bool) (s : System) : Prop where
  legal : Always (fun past e => Legal gated (World.after past) e) s.log
  world : s.world = World.after s.log
  tasks : ∀ k, TaskOk gated s.world k (s.tasks k)
  handlers : ∀ k, HandlerOk s.world k (s.tasks k) (s.handlers k)
  reports : ∀ k, ReportOk s.world k
  answers : ∀ k, AnswerOk s.world k (s.tasks k)

/-! ### Runs of events -/

/-- The events happen one after the other, each when it may. -/
def LegalRun (gated : Bool) : World → List Event → Prop
  | _, [] => True
  | w, e :: es => Legal gated w e ∧ LegalRun gated (w.apply e) es

/-- The request that an event is about. -/
def Event.about : Event → Option ℕ
  | .active _ => none
  | .request k _ => some k
  | .lockTimer k => some k
  | .unlockTimer k => some k
  | .acquire (.task k) => some k
  | .acquire .other => none
  | .release (.task k) => some k
  | .release .other => none
  | .abandon k => some k
  | .cleared k => some k
  | .sendStart k _ => some k
  | .sendEnd k _ => some k
  | .report k _ => some k
  | .answer k _ => some k

section

variable {gated : Bool} {w w' : World} {e : Event} {es : List Event} {j k : ℕ} {task : Task}
  {handler : Handler} {log : List Event}

theorem World.after_append (log es : List Event) :
    World.after (log ++ es) = es.foldl World.apply (World.after log) := List.foldl_append

theorem LegalRun.always (h : LegalRun gated (World.after log) es)
    (hlog : Always (fun past e => Legal gated (World.after past) e) log) :
    Always (fun past e => Legal gated (World.after past) e) (log ++ es) := by
  induction es generalizing log with
  | nil => rwa [List.append_nil]
  | cons e es ih =>
    rw [List.append_cons]
    refine ih ?_ (always_append_singleton.mpr ⟨hlog, h.1⟩)
    rw [World.after_append]
    exact h.2

/-- The world has not changed for request `j`; its timer and its permit are still its own. -/
structure Unchanged (w w' : World) (j : ℕ) : Prop where
  client : w'.client j = w.client j
  abandoned : w'.abandoned j = w.abandoned j
  reported : w'.reported j = w.reported j
  cleared : w'.cleared j = w.cleared j
  started : w'.started j = w.started j
  sent : w'.sent j = w.sent j
  answered : w'.answered j = w.answered j
  timer : w.timer = some j → w'.timer = some j
  gate : w.gate = some (.task j) → w'.gate = some (.task j)

theorem Legal.unchanged (h : Legal gated w e) (habout : e.about ≠ some j) :
    Unchanged w (w.apply e) j := by
  cases e with
  | active client => exact ⟨rfl, rfl, rfl, rfl, rfl, rfl, rfl, id, id⟩
  | lockTimer k => exact ⟨rfl, rfl, rfl, rfl, rfl, rfl, rfl, fun ht => by simp_all [Legal], id⟩
  | unlockTimer k =>
    exact ⟨rfl, rfl, rfl, rfl, rfl, rfl, rfl, fun ht => by simp_all [Legal, Event.about], id⟩
  | acquire owner => exact ⟨rfl, rfl, rfl, rfl, rfl, rfl, rfl, id, fun hg => by simp_all [Legal]⟩
  | release owner =>
    refine ⟨rfl, rfl, rfl, rfl, rfl, rfl, rfl, id, fun hg => ?_⟩
    -- the gate is released by its owner
    have howner : owner = .task j := Option.some.inj (Eq.trans h.symm hg)
    subst howner
    exact absurd rfl habout
  | request k client =>
    have hj : j ≠ k := fun hjk => habout (congrArg some hjk.symm)
    exact ⟨Function.update_of_ne hj .., rfl, rfl, rfl, rfl, rfl, rfl, id, id⟩
  | abandon k =>
    have hj : j ≠ k := fun hjk => habout (congrArg some hjk.symm)
    exact ⟨rfl, Function.update_of_ne hj .., rfl, rfl, rfl, rfl, rfl, id, id⟩
  | cleared k =>
    have hj : j ≠ k := fun hjk => habout (congrArg some hjk.symm)
    exact ⟨rfl, rfl, rfl, Function.update_of_ne hj .., rfl, rfl, rfl, id, id⟩
  | sendStart k client =>
    have hj : j ≠ k := fun hjk => habout (congrArg some hjk.symm)
    exact ⟨rfl, rfl, rfl, rfl, Function.update_of_ne hj .., rfl, rfl, id, id⟩
  | sendEnd k outcome =>
    have hj : j ≠ k := fun hjk => habout (congrArg some hjk.symm)
    exact ⟨rfl, rfl, rfl, rfl, rfl, Function.update_of_ne hj .., rfl, id, id⟩
  | report k outcome =>
    have hj : j ≠ k := fun hjk => habout (congrArg some hjk.symm)
    exact ⟨rfl, rfl, Function.update_of_ne hj .., rfl, rfl, rfl, rfl, id, id⟩
  | answer k answer =>
    have hj : j ≠ k := fun hjk => habout (congrArg some hjk.symm)
    exact ⟨rfl, rfl, rfl, rfl, rfl, rfl, Function.update_of_ne hj .., id, id⟩

theorem Unchanged.trans {w'' : World} (h : Unchanged w w' j) (h' : Unchanged w' w'' j) :
    Unchanged w w'' j :=
  ⟨h'.client.trans h.client, h'.abandoned.trans h.abandoned, h'.reported.trans h.reported,
    h'.cleared.trans h.cleared, h'.started.trans h.started, h'.sent.trans h.sent,
    h'.answered.trans h.answered, h'.timer ∘ h.timer, h'.gate ∘ h.gate⟩

theorem LegalRun.unchanged (h : LegalRun gated w es) (habout : ∀ e ∈ es, e.about ≠ some j) :
    Unchanged w (es.foldl World.apply w) j := by
  induction es generalizing w with
  | nil => exact ⟨rfl, rfl, rfl, rfl, rfl, rfl, rfl, id, id⟩
  | cons e es ih =>
    have he := h.1.unchanged (habout e List.mem_cons_self)
    exact he.trans (ih h.2 fun e' he' => habout e' (List.mem_cons_of_mem e he'))

theorem Fresh.unchanged (h : Fresh w j) (hw : Unchanged w w' j) : Fresh w' j :=
  ⟨hw.cleared.trans h.cleared, hw.started.trans h.started, hw.sent.trans h.sent,
    hw.reported.trans h.reported⟩

/-- The timer and the gate are none of its facts. -/
theorem Fresh.locks (h : Fresh w k) (timer : Option ℕ) (gate : Option Owner) :
    Fresh { w with timer, gate } k := ⟨h.cleared, h.started, h.sent, h.reported⟩

theorem TaskOk.unchanged (h : TaskOk gated w j task) (hw : Unchanged w w' j) :
    TaskOk gated w' j task := by
  have hpermit : Permitted gated w j → Permitted gated w' j := fun hp hg => hw.gate (hp hg)
  cases task with
  | absent => exact Fresh.unchanged h hw
  | lockTimer => exact Fresh.unchanged h hw
  | refusing error => exact Fresh.unchanged h hw
  | polling period => exact ⟨h.1.unchanged hw, hw.timer h.2⟩
  | measuring period => exact ⟨h.1.unchanged hw, hw.timer h.2⟩
  | sleeping period => exact ⟨h.1.unchanged hw, hw.timer h.2⟩
  | acquiring => exact ⟨h.1.unchanged hw, hw.timer h.2⟩
  | selecting => exact ⟨h.1.unchanged hw, hw.timer h.2⟩
  | holding => exact ⟨h.1.unchanged hw, hw.timer h.2.1, hw.gate h.2.2⟩
  | admitted => exact ⟨h.1.unchanged hw, hpermit h.2⟩
  | current =>
    obtain ⟨hcleared, hstarted, hsent, hreported, hp⟩ := h
    exact ⟨hw.cleared.trans hcleared, hw.started.trans hstarted, hw.sent.trans hsent,
      hw.reported.trans hreported, hpermit hp⟩
  | sending =>
    obtain ⟨hstarted, hsent, hreported, hp⟩ := h
    exact ⟨hw.started.trans hstarted, hw.sent.trans hsent, hw.reported.trans hreported, hpermit hp⟩
  | reporting outcome =>
    obtain ⟨hreported, hp, hsent⟩ := h
    refine ⟨hw.reported.trans hreported, hpermit hp, ?_⟩
    rw [hw.sent, hw.started]
    exact hsent
  | leaving => exact hpermit h
  | finished => trivial

/-- A task does not depend on what only its handler changes. -/
theorem TaskOk.handlerSide (h : TaskOk gated w k task) (client : ℕ → Option ℕ)
    (abandoned : ℕ → Bool) (answered : ℕ → Option Answer) :
    TaskOk gated { w with client, abandoned, answered } k task := by
  cases task with
  | absent => exact ⟨h.cleared, h.started, h.sent, h.reported⟩
  | lockTimer => exact ⟨h.cleared, h.started, h.sent, h.reported⟩
  | refusing error => exact ⟨h.cleared, h.started, h.sent, h.reported⟩
  | polling period => exact ⟨⟨h.1.cleared, h.1.started, h.1.sent, h.1.reported⟩, h.2⟩
  | measuring period => exact ⟨⟨h.1.cleared, h.1.started, h.1.sent, h.1.reported⟩, h.2⟩
  | sleeping period => exact ⟨⟨h.1.cleared, h.1.started, h.1.sent, h.1.reported⟩, h.2⟩
  | acquiring => exact ⟨⟨h.1.cleared, h.1.started, h.1.sent, h.1.reported⟩, h.2⟩
  | selecting => exact ⟨⟨h.1.cleared, h.1.started, h.1.sent, h.1.reported⟩, h.2⟩
  | holding => exact ⟨⟨h.1.cleared, h.1.started, h.1.sent, h.1.reported⟩, h.2⟩
  | admitted => exact ⟨⟨h.1.cleared, h.1.started, h.1.sent, h.1.reported⟩, h.2⟩
  | current => exact h
  | sending => exact h
  | reporting outcome => exact h
  | leaving => exact h
  | finished => trivial

theorem HandlerOk.unchanged (h : HandlerOk w j task handler) (hw : Unchanged w w' j) :
    HandlerOk w' j task handler := by
  cases handler with
  | absent => exact ⟨hw.client.trans h.1, hw.answered.trans h.2.1, h.2.2⟩
  | picked => exact ⟨hw.answered.trans h.1, h.2⟩
  | waiting => exact hw.answered.trans h
  | timedOut => exact hw.answered.trans h
  | gaveUp => exact ⟨hw.answered.trans h.1, hw.abandoned.trans h.2⟩
  | answered => trivial

/-! ### Reports and answers -/

theorem ReportOk.apply (h : ReportOk w k) (hlegal : Legal gated w e) : ReportOk (w.apply e) k := by
  by_cases habout : e.about = some k
  · intro outcome hreported
    cases e with
    | report k' outcome' =>
      obtain rfl : k' = k := Option.some.inj habout
      obtain rfl : outcome' = outcome := by simpa [World.apply] using hreported
      exact hlegal.2
    | sendStart k' client =>
      -- what was reported is no longer sent
      obtain rfl : k' = k := Option.some.inj habout
      obtain ⟨-, -, -, -, hnone, -⟩ := hlegal
      exact absurd (hnone.symm.trans hreported) (by simp)
    | sendEnd k' outcome' =>
      obtain rfl : k' = k := Option.some.inj habout
      obtain ⟨hstarted, hsent, -⟩ := hlegal
      obtain h' | h' := h outcome hreported
      · exact absurd (hsent.symm.trans h') (by simp)
      · exact absurd (hstarted.symm.trans h'.1) (by simp)
    | active client => exact h outcome hreported
    | request k' client => exact h outcome hreported
    | lockTimer k' => exact h outcome hreported
    | unlockTimer k' => exact h outcome hreported
    | acquire owner => exact h outcome hreported
    | release owner => exact h outcome hreported
    | abandon k' => exact h outcome hreported
    | cleared k' => exact h outcome hreported
    | answer k' answer => exact h outcome hreported
  · have hw := hlegal.unchanged habout
    intro outcome hreported
    rw [hw.sent, hw.started]
    exact h outcome (hw.reported.symm.trans hreported)

theorem AnswerOk.apply (h : AnswerOk w k task) (hlegal : Legal gated w e)
    (hrefused : e = .answer k .refused → task = .absent) : AnswerOk (w.apply e) k task := by
  by_cases habout : e.about = some k
  · intro answer hanswered
    cases e with
    | answer k' answer' =>
      obtain rfl : k' = k := Option.some.inj habout
      obtain rfl : answer' = answer := by simpa [World.apply] using hanswered
      cases answer' with
      | sent messageId => exact hlegal.2
      | failed error => exact hlegal.2
      | timeout => exact hlegal.2
      | refused => exact hrefused rfl
    | report k' outcome =>
      obtain rfl : k' = k := Option.some.inj habout
      have hnone : w.reported k' = none := hlegal.1
      have hold := h answer hanswered
      cases answer with
      | sent messageId => exact absurd (hnone.symm.trans hold) (by simp)
      | failed error => exact absurd (hnone.symm.trans hold) (by simp)
      | timeout => exact hold
      | refused => exact hold
    | abandon k' =>
      obtain rfl : k' = k := Option.some.inj habout
      exact absurd (hlegal.symm.trans hanswered) (by simp)
    | active client => exact h answer hanswered
    | request k' client => exact h answer hanswered
    | lockTimer k' => exact h answer hanswered
    | unlockTimer k' => exact h answer hanswered
    | acquire owner => exact h answer hanswered
    | release owner => exact h answer hanswered
    | cleared k' => exact h answer hanswered
    | sendStart k' client => exact h answer hanswered
    | sendEnd k' outcome => exact h answer hanswered
  -- an event of another request leaves this one alone
  · have hw := hlegal.unchanged habout
    intro answer hanswered
    have hold := h answer (hw.answered.symm.trans hanswered)
    cases answer with
    | sent messageId => exact hw.reported.trans hold
    | failed error => exact hw.reported.trans hold
    | timeout => exact hw.abandoned.trans hold
    | refused => exact hold

theorem LegalRun.reports (h : LegalRun gated w es) (hreport : ReportOk w k) :
    ReportOk (es.foldl World.apply w) k := by
  induction es generalizing w with
  | nil => exact hreport
  | cons e es ih => exact ih h.2 (hreport.apply h.1)

theorem LegalRun.answers (h : LegalRun gated w es) (hanswer : AnswerOk w k task)
    (hrefused : .answer k .refused ∈ es → task = .absent) :
    AnswerOk (es.foldl World.apply w) k task := by
  induction es generalizing w with
  | nil => exact hanswer
  | cons e es ih =>
    refine ih h.2 (hanswer.apply h.1 fun he => hrefused ?_) fun hmem => hrefused ?_
    · rw [he]
      exact List.mem_cons_self
    · exact List.mem_cons_of_mem e hmem

/-! ### Steps of a task -/

variable {loggedIn : ℕ → Bool} {task' : Task}

/-- A task that is in its right place does what it may and gets to its next place. -/
theorem Move.ok (h : Move gated w loggedIn k task es task') (hok : TaskOk gated w k task) :
    LegalRun gated w es ∧ TaskOk gated (es.foldl World.apply w) k task' := by
  cases h with
  | lockTimer now hfree => exact ⟨⟨hfree, trivial⟩, Fresh.locks hok _ _, rfl⟩
  | cancelPolling hcancelled => exact ⟨⟨hok.2, trivial⟩, hok.1.locks _ _⟩
  | poll hgo => exact ⟨trivial, hok⟩
  | ready now quiet hready => exact ⟨trivial, hok⟩
  | wait now quiet hready => exact ⟨trivial, hok⟩
  | wake => exact ⟨trivial, hok⟩
  | sleepError error => exact ⟨⟨hok.2, trivial⟩, hok.1.locks _ _⟩
  | cancelAcquiring hcancelled => exact ⟨⟨hok.2, trivial⟩, hok.1.locks _ _⟩
  | acquire hgo => exact ⟨trivial, hok⟩
  | permit hfree => exact ⟨⟨hfree, trivial⟩, hok.1.locks _ _, hok.2, rfl⟩
  | tick => exact ⟨trivial, hok⟩
  | tickError error => exact ⟨⟨hok.2, trivial⟩, hok.1.locks _ _⟩
  | cancelHolding hcancelled => exact ⟨⟨hok.2.2, hok.2.1, trivial⟩, hok.1.locks _ _⟩
  | enter hgo => exact ⟨⟨hok.2.1, trivial⟩, hok.1.locks _ _, fun _ => hok.2.2⟩
  | refuse error => exact ⟨⟨⟨hok.reported, Or.inr ⟨hok.started, error, rfl⟩⟩, trivial⟩, trivial⟩
  | abandoned habandoned => exact ⟨trivial, hok.2⟩
  | clear hgo =>
    obtain ⟨hfresh, hpermit⟩ := hok
    refine ⟨⟨⟨hgo, hfresh.cleared⟩, trivial⟩, ?_, hfresh.started, hfresh.sent, hfresh.reported,
      hpermit⟩
    exact Function.update_self ..
  | @send client hclient hactive =>
    obtain ⟨hcleared, hstarted, hsent, hreported, hpermit⟩ := hok
    refine ⟨⟨⟨hclient, hactive, hcleared, hstarted, hreported, hpermit⟩, trivial⟩, ?_, hsent,
      hreported, hpermit⟩
    exact Function.update_self ..
  -- the client was replaced under the task: nothing is sent, and the report says so
  | reconnected hother =>
    obtain ⟨-, hstarted, -, hreported, hpermit⟩ := hok
    exact ⟨trivial, hreported, hpermit, Or.inr ⟨hstarted, _, rfl⟩⟩
  | sent outcome =>
    obtain ⟨hstarted, hsent, hreported, hpermit⟩ := hok
    refine ⟨⟨⟨hstarted, hsent, hpermit⟩, trivial⟩, hreported, hpermit, Or.inl ?_⟩
    exact Function.update_self ..
  | report outcome =>
    obtain ⟨hreported, hpermit, hsent⟩ := hok
    exact ⟨⟨⟨hreported, hsent⟩, trivial⟩, hpermit⟩
  | leave =>
    cases gated with
    | false => exact ⟨trivial, trivial⟩
    | true => exact ⟨⟨hok rfl, trivial⟩, trivial⟩

theorem Move.about (h : Move gated w loggedIn k task es task') : ∀ e ∈ es, e.about = some k := by
  cases h <;> simp [Event.about, releasing]

theorem Move.notMem_refused (h : Move gated w loggedIn k task es task') :
    .answer k .refused ∉ es := by
  cases h <;> simp [releasing]

/-- A handler that has submitted a task waits for it. -/
theorem Turn.waiting_of_submitted {handler' : Handler} {submitted : Task}
    (h : Turn gated w loggedIn k handler es handler' (some submitted)) : handler' = .waiting := by
  cases h
  rfl

theorem Turn.about {handler' : Handler} {submitted : Option Task}
    (h : Turn gated w loggedIn k handler es handler' submitted) : ∀ e ∈ es, e.about = some k := by
  cases h <;> simp [Event.about]

theorem Move.ne_absent (h : Move gated w loggedIn k task es task') : task ≠ .absent := by
  rintro rfl
  cases h

/-- A task leaves alone what its handler relies on. -/
theorem Move.handlerOk (h : Move gated w loggedIn k task es task')
    (hok : HandlerOk w k task handler) : HandlerOk (es.foldl World.apply w) k task' handler := by
  have hkeeps : (es.foldl World.apply w).answered k = w.answered k ∧
      (es.foldl World.apply w).abandoned k = w.abandoned k := by
    cases h <;> simp [World.apply, releasing]
    split_ifs <;> simp [World.apply]
  cases handler with
  | absent => exact absurd hok.2.2 h.ne_absent
  | picked => exact absurd hok.2 h.ne_absent
  | waiting => exact hkeeps.1.trans hok
  | timedOut => exact hkeeps.1.trans hok
  | gaveUp => exact ⟨hkeeps.1.trans hok.1, hkeeps.2.trans hok.2⟩
  | answered => trivial

/-! ### Turns of a handler -/

variable {handler' : Handler} {submitted : Option Task}

/-- A handler in its right place does what it may, and submits its task at most once. -/
theorem Turn.ok (h : Turn gated w loggedIn k handler es handler' submitted)
    (hok : HandlerOk w k task handler) (htask : TaskOk gated w k task) :
    LegalRun gated w es ∧
      HandlerOk (es.foldl World.apply w) k (submitted.getD task) handler' ∧
      TaskOk gated (es.foldl World.apply w) k (submitted.getD task) ∧
      (.answer k .refused ∈ es ∨ submitted ≠ none → task = .absent) := by
  cases h with
  | @pick client hactive =>
    obtain ⟨hclient, hanswered, rfl⟩ := hok
    exact ⟨⟨⟨hclient, hactive⟩, trivial⟩, ⟨hanswered, rfl⟩, htask.handlerSide _ _ _, fun _ => rfl⟩
  | notConnected hlogin =>
    obtain ⟨hanswered, rfl⟩ := hok
    exact ⟨⟨⟨hanswered, htask.started, htask.reported⟩, trivial⟩, trivial,
      htask.handlerSide _ _ _, fun _ => rfl⟩
  | unavailable =>
    obtain ⟨hanswered, rfl⟩ := hok
    exact ⟨⟨⟨hanswered, htask.started, htask.reported⟩, trivial⟩, trivial,
      htask.handlerSide _ _ _, fun _ => rfl⟩
  | submit hlogin =>
    obtain ⟨hanswered, rfl⟩ := hok
    refine ⟨trivial, hanswered, ?_, fun _ => rfl⟩
    cases gated with
    | true => exact htask
    | false => exact ⟨htask, fun hfalse => by cases hfalse⟩
  | @receive outcome hreported =>
    refine ⟨⟨⟨hok, ?_⟩, trivial⟩, trivial, ?_, ?_⟩
    · cases outcome with
      | ok messageId => exact hreported
      | error error => exact hreported
    · exact htask.handlerSide _ _ _
    · cases outcome <;> simp [Answer.ofOutcome]
  | timeout hnone => exact ⟨trivial, hok, htask, by simp⟩
  | abandon =>
    refine ⟨⟨hok, trivial⟩, ⟨hok, Function.update_self ..⟩, ?_, by simp⟩
    exact htask.handlerSide _ _ _
  | giveUp =>
    refine ⟨⟨hok, trivial⟩, trivial, ?_, by simp⟩
    exact htask.handlerSide _ _ _

end

/-! ### Runs -/

namespace System

variable {gated : Bool} {s s' : System} {es : List Event} {k : ℕ}

theorem ok_initial : Ok gated initial where
  legal := always_nil
  world := rfl
  tasks _ := ⟨rfl, rfl, rfl, rfl⟩
  handlers _ := ⟨rfl, rfl, rfl⟩
  reports _ _ h := by cases h
  answers _ _ h := by cases h

/-- Events of request `k`, and its task and handler after them. -/
theorem Ok.emit (h : Ok gated s) (hlegal : LegalRun gated s.world es)
    (habout : ∀ e ∈ es, e.about = some k) {tasks : ℕ → Task} {handlers : ℕ → Handler}
    (htasks : ∀ j, j ≠ k → tasks j = s.tasks j)
    (hhandlers : ∀ j, j ≠ k → handlers j = s.handlers j)
    (htask : TaskOk gated (es.foldl World.apply s.world) k (tasks k))
    (hhandler : HandlerOk (es.foldl World.apply s.world) k (tasks k) (handlers k))
    (hanswer : AnswerOk (es.foldl World.apply s.world) k (tasks k)) :
    Ok gated { s.emit es with tasks, handlers } := by
  have hw : ∀ j, j ≠ k → Unchanged s.world (es.foldl World.apply s.world) j := by
    intro j hj
    refine hlegal.unchanged fun e he heq => hj ?_
    rw [habout e he] at heq
    exact (Option.some.inj heq).symm
  refine ⟨?_, ?_, fun j => ?_, fun j => ?_, fun j => hlegal.reports (h.reports j), fun j => ?_⟩
  · rw [h.world] at hlegal
    exact hlegal.always h.legal
  · show es.foldl World.apply s.world = World.after (s.log ++ es)
    rw [World.after_append, h.world]
  · by_cases hj : j = k
    · subst hj
      exact htask
    · show TaskOk gated _ j (tasks j)
      rw [htasks j hj]
      exact (h.tasks j).unchanged (hw j hj)
  · by_cases hj : j = k
    · subst hj
      exact hhandler
    · show HandlerOk _ j (tasks j) (handlers j)
      rw [htasks j hj, hhandlers j hj]
      exact (h.handlers j).unchanged (hw j hj)
  · by_cases hj : j = k
    · subst hj
      exact hanswer
    · show AnswerOk _ j (tasks j)
      rw [htasks j hj]
      refine hlegal.answers (h.answers j) fun hmem => absurd (habout _ hmem) ?_
      exact fun heq => hj (Option.some.inj heq)

theorem Ok.task (h : Ok gated s) {task : Task}
    (hmove : Move gated s.world s.loggedIn k (s.tasks k) es task) :
    Ok gated { s.emit es with tasks := Function.update s.tasks k task } := by
  obtain ⟨hlegal, htask⟩ := hmove.ok (h.tasks k)
  refine h.emit hlegal hmove.about (fun j hj => Function.update_of_ne hj ..) (fun j _ => rfl) ?_ ?_ ?_
  · rw [Function.update_self]
    exact htask
  · rw [Function.update_self]
    exact hmove.handlerOk (h.handlers k)
  · rw [Function.update_self]
    have hanswer := hlegal.answers (h.answers k) fun hmem => absurd hmem hmove.notMem_refused
    intro answer hanswered
    have hold := hanswer answer hanswered
    cases answer with
    | sent messageId => exact hold
    | failed error => exact hold
    | timeout => exact hold
    | refused => exact absurd hold hmove.ne_absent

theorem Ok.handler (h : Ok gated s) {handler : Handler} {submitted : Option Task}
    (hturn : Turn gated s.world s.loggedIn k (s.handlers k) es handler submitted) :
    Ok gated { s.emit es with
      handlers := Function.update s.handlers k handler
      tasks := submitted.elim s.tasks fun task => Function.update s.tasks k task } := by
  obtain ⟨hlegal, hhandler, htask, habsent⟩ := hturn.ok (h.handlers k) (h.tasks k)
  cases submitted with
  | none =>
    refine h.emit hlegal hturn.about (fun j _ => rfl) (fun j hj => Function.update_of_ne hj ..)
      htask ?_ ?_
    · rw [Function.update_self]
      exact hhandler
    · exact hlegal.answers (h.answers k) fun hmem => habsent (Or.inl hmem)
  | some task =>
    refine h.emit hlegal hturn.about (fun j hj => Function.update_of_ne hj ..)
      (fun j hj => Function.update_of_ne hj ..) ?_ ?_ ?_
    · rw [Option.elim_some, Function.update_self]
      exact htask
    · rw [Option.elim_some, Function.update_self, Function.update_self]
      exact hhandler
    · -- a handler that submits a task has not answered
      rw [hturn.waiting_of_submitted] at hhandler
      intro answer hanswered
      exact absurd (Eq.trans (Eq.symm hhandler) hanswered) (by simp)

/-- An event that is about no request. -/
theorem Ok.outside (h : Ok gated s) {e : Event} (hlegal : Legal gated s.world e)
    (habout : e.about = none) : Ok gated (s.emit [e]) := by
  have hw : ∀ j, Unchanged s.world (s.world.apply e) j := fun j =>
    hlegal.unchanged (by rw [habout]; simp)
  refine ⟨?_, ?_, fun j => (h.tasks j).unchanged (hw j), fun j => (h.handlers j).unchanged (hw j),
    fun j => (h.reports j).apply hlegal, fun j => (h.answers j).apply hlegal ?_⟩
  · refine always_append_singleton.mpr ⟨h.legal, ?_⟩
    rw [← h.world]
    exact hlegal
  · show s.world.apply e = World.after (s.log ++ [e])
    rw [World.after_append, ← h.world]
    rfl
  · rintro rfl
    cases habout

theorem Ok.step (h : Ok gated s) (hstep : Step gated s s') : Ok gated s' := by
  cases hstep with
  | task hmove => exact h.task hmove
  | handler hturn => exact h.handler hturn
  | active client => exact h.outside trivial rfl
  | login loggedIn => exact ⟨h.legal, h.world, h.tasks, h.handlers, h.reports, h.answers⟩
  | otherAcquire hfree => exact h.outside hfree rfl
  | otherRelease hgate => exact h.outside hgate rfl

theorem Reachable.ok (h : Reachable gated s) : Ok gated s := by
  induction h with
  | refl => exact ok_initial
  | tail _ hstep ih => exact ih.step hstep

/-- What was answered is true, because of what the answer rests on. -/
theorem Ok.truthful (h : Ok gated s) (k : ℕ) : Truthful s.world k := by
  have hanswer := h.answers k
  unfold Truthful
  cases hanswered : s.world.answered k with
  | none => trivial
  | some answer =>
    have hold := hanswer answer hanswered
    cases answer with
    | sent messageId =>
      obtain hsent | ⟨-, error, heq⟩ := h.reports k _ hold
      · exact hsent
      · cases heq
    | failed error =>
      obtain hsent | ⟨hstarted, -⟩ := h.reports k _ hold
      · exact Or.inl hsent
      · exact Or.inr hstarted
    | timeout => exact hold
    | refused =>
      have htask := h.tasks k
      rw [show s.tasks k = .absent from hold] at htask
      exact htask.started

end System

/-- **Every send is admitted and every answer is true**: in every run of any number of requests,
with clients that come and go and others that use the gate, each event happens in a world in which
it may, and what the handlers have answered is so. -/
theorem sends_legal {gated : Bool} {s : System} (h : System.Reachable gated s) :
    Always (fun past e => Legal gated (World.after past) e) s.log ∧ ∀ k, Truthful s.world k :=
  ⟨h.ok.legal, h.ok.truthful⟩

/-- A request whose task is about to send, with the gate in hand. -/
theorem exists_admitted : ∃ s, System.Reachable true s ∧ s.tasks 0 = .admitted ∧
    s.handlers 0 = .waiting ∧ s.world = { World.initial with
      active := some 7, client := Function.update World.initial.client 0 (some 7)
      gate := some (.task 0) } := by
  have hlate : (QuietPeriod.ready (.new 0) (fromSecs 5) false).1 = true := by decide
  have hsubmitted : System.Reachable true _ :=
    (((Relation.ReflTransGen.single (.active (some 7))).tail (.login fun _ => true)).tail
      (.handler (k := 0) (.pick rfl))).tail (.handler (k := 0) (.submit rfl))
  have hpolled := (hsubmitted.tail (.task (k := 0) (.lockTimer 0 rfl))).tail
    (.task (k := 0) (.poll rfl))
  have hwaiting := (hpolled.tail (.task (k := 0) (.ready (fromSecs 5) false hlate))).tail
    (.task (k := 0) (.acquire rfl))
  have hheld := (hwaiting.tail (.task (k := 0) (.permit rfl))).tail (.task (k := 0) (.enter rfl))
  exact ⟨_, hheld, rfl, rfl, rfl⟩

/-- It sends, reports, and its handler answers. -/
theorem admitted_answers : ∃ s, System.Reachable true s ∧
    s.world.answered 0 = some (.sent "3EB0") ∧ s.world.sent 0 = some (.ok "3EB0") := by
  obtain ⟨s, hreach, htask, hhandler, hworld⟩ := exists_admitted
  have hclear : Move true s.world s.loggedIn 0 (s.tasks 0) [.cleared 0] .current := by
    rw [htask]
    exact .clear (by rw [hworld]; rfl)
  have hclient : s.world.client 0 = some 7 := by rw [hworld]; rfl
  have hactive : s.world.active = some 7 := by rw [hworld]
  have hsent := ((hreach.tail (.task hclear)).tail (.task (k := 0) (.send hclient hactive))).tail
    (.task (k := 0) (.sent (.ok "3EB0")))
  have hreported := hsent.tail (.task (k := 0) (.report (.ok "3EB0")))
  have hreceive : ∀ w : World, w.reported 0 = some (.ok "3EB0") →
      Turn true w s.loggedIn 0 (s.handlers 0) [.answer 0 (.sent "3EB0")] .answered none := by
    intro w hw
    rw [hhandler]
    exact .receive hw
  have hanswered := hreported.tail (.handler (hreceive _ rfl))
  have htrue := (sends_legal hanswered).2 0
  exact ⟨_, hanswered, rfl, htrue⟩

/-! ### The locks come back -/

/-- The places at which a task has the permit. -/
def Task.holdsGate : Task → Bool
  | .holding | .admitted | .current | .sending | .reporting _ | .leaving => true
  | _ => false

/-- The places at which a task has the timer. -/
def Task.holdsTimer : Task → Bool
  | .polling _ | .measuring _ | .sleeping _ | .acquiring | .selecting | .holding => true
  | _ => false

/-- Nobody has a lock that it has forgotten. -/
structure System.Owned (s : System) : Prop where
  gate : ∀ k, s.world.gate = some (.task k) → (s.tasks k).holdsGate = true
  timer : ∀ k, s.world.timer = some k → (s.tasks k).holdsTimer = true

section

variable {gated : Bool} {w : World} {es : List Event} {j k : ℕ} {task task' : Task}
  {loggedIn : ℕ → Bool} {s s' : System}

/-- Events of request `k` give no lock to another request. -/
theorem locks_of_about (habout : ∀ e ∈ es, e.about = some k) (hj : j ≠ k) :
    ((es.foldl World.apply w).gate = some (.task j) → w.gate = some (.task j)) ∧
      ((es.foldl World.apply w).timer = some j → w.timer = some j) := by
  induction es generalizing w with
  | nil => exact ⟨id, id⟩
  | cons e es ih =>
    obtain ⟨hgate, htimer⟩ := ih (w := w.apply e) fun e' he' => habout e' (List.mem_cons_of_mem e he')
    have he := habout e List.mem_cons_self
    refine ⟨fun h => ?_, fun h => ?_⟩
    · have hgate' := hgate h
      cases e with
      | acquire owner =>
        obtain rfl : owner = .task j := Option.some.inj hgate'
        exact absurd (Option.some.inj he) hj
      | release owner => cases hgate'
      | active client => exact hgate'
      | request k client => exact hgate'
      | lockTimer k => exact hgate'
      | unlockTimer k => exact hgate'
      | abandon k => exact hgate'
      | cleared k => exact hgate'
      | sendStart k client => exact hgate'
      | sendEnd k outcome => exact hgate'
      | report k outcome => exact hgate'
      | answer k answer => exact hgate'
    · have htimer' := htimer h
      cases e with
      | lockTimer k' =>
        obtain rfl : k' = j := Option.some.inj htimer'
        exact absurd (Option.some.inj he) hj
      | unlockTimer k' => cases htimer'
      | acquire owner => exact htimer'
      | release owner => exact htimer'
      | active client => exact htimer'
      | request k client => exact htimer'
      | abandon k => exact htimer'
      | cleared k => exact htimer'
      | sendStart k client => exact htimer'
      | sendEnd k outcome => exact htimer'
      | report k outcome => exact htimer'
      | answer k answer => exact htimer'

/-- A task gives up its locks where it leaves their places. -/
theorem Move.owned (h : Move true w loggedIn k task es task')
    (hgate : w.gate = some (.task k) → task.holdsGate = true)
    (htimer : w.timer = some k → task.holdsTimer = true) :
    ((es.foldl World.apply w).gate = some (.task k) → task'.holdsGate = true) ∧
      ((es.foldl World.apply w).timer = some k → task'.holdsTimer = true) := by
  cases h <;> simp_all [World.apply, Task.holdsGate, Task.holdsTimer, releasing]

theorem Turn.locks {handler handler' : Handler} {submitted : Option Task}
    (h : Turn gated w loggedIn k handler es handler' submitted) :
    (es.foldl World.apply w).gate = w.gate ∧ (es.foldl World.apply w).timer = w.timer := by
  cases h <;> exact ⟨rfl, rfl⟩

namespace System

theorem Owned.of_move (h : Owned s) (hmove : Move true s.world s.loggedIn k (s.tasks k) es task) :
    Owned { s.emit es with tasks := Function.update s.tasks k task } := by
  obtain ⟨hgate, htimer⟩ := hmove.owned (h.gate k) (h.timer k)
  refine ⟨fun j hj => ?_, fun j hj => ?_⟩
  · show (Function.update s.tasks k task j).holdsGate = true
    by_cases hjk : j = k
    · subst hjk
      rw [Function.update_self]
      exact hgate hj
    · rw [Function.update_of_ne hjk]
      exact h.gate j ((locks_of_about hmove.about hjk).1 hj)
  · show (Function.update s.tasks k task j).holdsTimer = true
    by_cases hjk : j = k
    · subst hjk
      rw [Function.update_self]
      exact htimer hj
    · rw [Function.update_of_ne hjk]
      exact h.timer j ((locks_of_about hmove.about hjk).2 hj)

theorem Owned.of_turn (hok : Ok true s) (h : Owned s) {handler : Handler} {submitted : Option Task}
    (hturn : Turn true s.world s.loggedIn k (s.handlers k) es handler submitted) :
    Owned { s.emit es with
      handlers := Function.update s.handlers k handler
      tasks := submitted.elim s.tasks fun task => Function.update s.tasks k task } := by
  obtain ⟨hgate, htimer⟩ := hturn.locks
  obtain ⟨-, -, -, habsent⟩ := hturn.ok (hok.handlers k) (hok.tasks k)
  cases submitted with
  | none => exact ⟨fun j hj => h.gate j (hgate ▸ hj), fun j hj => h.timer j (htimer ▸ hj)⟩
  | some task =>
    -- there was no task before, so it had no lock
    have hnone : s.tasks k = .absent := habsent (Or.inr (by simp))
    refine ⟨fun j hj => ?_, fun j hj => ?_⟩
    · have hold := h.gate j (hgate ▸ hj)
      by_cases hjk : j = k
      · subst hjk
        rw [hnone] at hold
        cases hold
      · show (Function.update s.tasks k task j).holdsGate = true
        rw [Function.update_of_ne hjk]
        exact hold
    · have hold := h.timer j (htimer ▸ hj)
      by_cases hjk : j = k
      · subst hjk
        rw [hnone] at hold
        cases hold
      · show (Function.update s.tasks k task j).holdsTimer = true
        rw [Function.update_of_ne hjk]
        exact hold

theorem Reachable.owned (h : Reachable true s) : Owned s := by
  induction h with
  | refl => exact ⟨fun k hk => (by cases hk), fun k hk => (by cases hk)⟩
  | @tail s s' hreach hstep ih =>
    have hok : Ok true s := Reachable.ok hreach
    cases hstep with
    | task hmove => exact ih.of_move hmove
    | handler hturn => exact ih.of_turn hok hturn
    | active client => exact ⟨ih.gate, ih.timer⟩
    | login loggedIn => exact ⟨ih.gate, ih.timer⟩
    | otherAcquire hfree => exact ⟨fun k hk => (by cases hk), ih.timer⟩
    | otherRelease hgate => exact ⟨fun k hk => (by cases hk), ih.timer⟩

/-- A step of the task of request `k`. -/
def Own (k : ℕ) (s s' : System) : Prop :=
  ∃ es task, Move true s.world s.loggedIn k (s.tasks k) es task ∧
    s' = { s.emit es with tasks := Function.update s.tasks k task }

/-- The task of request `k` can get to `P` on its own. -/
def Manages (k : ℕ) (P : World → Prop) (s : System) : Prop :=
  ∃ s', Relation.ReflTransGen (Own k) s s' ∧ P s'.world

variable {P : World → Prop}

/-- One step, and what the task can do from there. -/
theorem manages_of_move (htask : s.tasks k = task)
    (hmove : Move true s.world s.loggedIn k task es task')
    (h : ∀ s', s'.world = es.foldl World.apply s.world → s'.loggedIn = s.loggedIn →
      s'.tasks k = task' → Manages k P s') : Manages k P s := by
  subst htask
  obtain ⟨s', hrun, hP⟩ := h { s.emit es with tasks := Function.update s.tasks k task' } rfl rfl
    (Function.update_self ..)
  exact ⟨s', .head ⟨es, task', hmove, rfl⟩ hrun, hP⟩

/-- The last step. -/
theorem manages_of_last (htask : s.tasks k = task)
    (hmove : Move true s.world s.loggedIn k task es task') (hP : P (es.foldl World.apply s.world)) :
    Manages k P s :=
  manages_of_move htask hmove fun s' hworld _ _ => ⟨s', .refl, by rw [hworld]; exact hP⟩

/-! The permit comes back from every place at which a task has it. -/

theorem gate_of_leaving (h : s.tasks k = .leaving) : Manages k (·.gate = none) s :=
  manages_of_last h .leave rfl

theorem gate_of_reporting {outcome : Outcome} (h : s.tasks k = .reporting outcome) :
    Manages k (·.gate = none) s :=
  manages_of_move h (.report outcome) fun _ _ _ htask => gate_of_leaving htask

theorem gate_of_sending (h : s.tasks k = .sending) : Manages k (·.gate = none) s :=
  manages_of_move h (.sent (.error "")) fun _ _ _ htask => gate_of_reporting htask

theorem gate_of_current (h : s.tasks k = .current) : Manages k (·.gate = none) s := by
  by_cases hcurrent : ∃ client, s.world.client k = some client ∧ s.world.active = some client
  · obtain ⟨client, hclient, hactive⟩ := hcurrent
    exact manages_of_move h (.send hclient hactive) fun _ _ _ htask => gate_of_sending htask
  · refine manages_of_move h (.reconnected ?_) fun _ _ _ htask => gate_of_reporting htask
    intro client hclient hactive
    exact hcurrent ⟨client, hclient, hactive⟩

theorem gate_of_admitted (h : s.tasks k = .admitted) : Manages k (·.gate = none) s := by
  cases habandoned : s.world.abandoned k with
  | true => exact manages_of_move h (.abandoned habandoned) fun _ _ _ htask => gate_of_leaving htask
  | false => exact manages_of_move h (.clear habandoned) fun _ _ _ htask => gate_of_current htask

theorem gate_of_holding (h : s.tasks k = .holding) : Manages k (·.gate = none) s := by
  cases hcancelled : s.world.cancelled s.loggedIn k with
  | true => exact manages_of_last h (.cancelHolding hcancelled) rfl
  | false => exact manages_of_move h (.enter hcancelled) fun _ _ _ htask => gate_of_admitted htask

/-! The timer comes back from every place at which a task has it, once the gate is free. -/

theorem timer_of_holding (h : s.tasks k = .holding) : Manages k (·.timer = none) s := by
  cases hcancelled : s.world.cancelled s.loggedIn k with
  | true => exact manages_of_last h (.cancelHolding hcancelled) rfl
  | false => exact manages_of_last h (.enter hcancelled) rfl

theorem timer_of_selecting (h : s.tasks k = .selecting) (hgate : s.world.gate = none) :
    Manages k (·.timer = none) s :=
  manages_of_move h (.permit hgate) fun _ _ _ htask => timer_of_holding htask

theorem timer_of_acquiring (h : s.tasks k = .acquiring) (hgate : s.world.gate = none) :
    Manages k (·.timer = none) s := by
  cases hcancelled : s.world.cancelled s.loggedIn k with
  | true => exact manages_of_last h (.cancelAcquiring hcancelled) rfl
  | false =>
    refine manages_of_move h (.acquire hcancelled) fun s' hworld _ htask => ?_
    exact timer_of_selecting htask (by rw [hworld]; exact hgate)

/-- After five seconds the grace period is over. -/
theorem timer_of_measuring {period : QuietPeriod} (h : s.tasks k = .measuring period)
    (hgate : s.world.gate = none) : Manages k (·.timer = none) s := by
  have hlate : fromSecs 5 ≤ (period.started + fromSecs 5) - period.started := by omega
  have hready : (period.ready (period.started + fromSecs 5) false).1 = true := by
    rw [QuietPeriod.ready_late hlate]
  refine manages_of_move h (.ready _ _ hready) fun s' hworld _ htask => ?_
  exact timer_of_acquiring htask (by rw [hworld]; exact hgate)

theorem timer_of_polling {period : QuietPeriod} (h : s.tasks k = .polling period)
    (hgate : s.world.gate = none) : Manages k (·.timer = none) s := by
  cases hcancelled : s.world.cancelled s.loggedIn k with
  | true => exact manages_of_last h (.cancelPolling hcancelled) rfl
  | false =>
    refine manages_of_move h (.poll hcancelled) fun s' hworld _ htask => ?_
    exact timer_of_measuring htask (by rw [hworld]; exact hgate)

theorem timer_of_sleeping {period : QuietPeriod} (h : s.tasks k = .sleeping period)
    (hgate : s.world.gate = none) : Manages k (·.timer = none) s := by
  refine manages_of_move h .wake fun s' hworld _ htask => ?_
  exact timer_of_polling htask (by rw [hworld]; exact hgate)

end System

/-- **No lock is lost**: in every run a task that has the permit can give it back on its own, and a
task that has the timer can pass it on once the gate is free.  So a task that waits for either waits
for one that can go on, or for an HTTP request or a reply of the bot. -/
theorem locks_return (h : System.Reachable true s) :
    (∀ k, s.world.gate = some (.task k) → s.Manages k (·.gate = none)) ∧
      ∀ k, s.world.timer = some k → s.world.gate = none → s.Manages k (·.timer = none) := by
  constructor
  · intro k hgate
    have hplace := h.owned.gate k hgate
    cases htask : s.tasks k <;> rw [htask] at hplace
    case holding => exact System.gate_of_holding htask
    case admitted => exact System.gate_of_admitted htask
    case current => exact System.gate_of_current htask
    case sending => exact System.gate_of_sending htask
    case reporting outcome => exact System.gate_of_reporting htask
    case leaving => exact System.gate_of_leaving htask
    all_goals cases hplace
  · intro k htimer hgate
    have hplace := h.owned.timer k htimer
    cases htask : s.tasks k <;> rw [htask] at hplace
    case polling period => exact System.timer_of_polling htask hgate
    case measuring period => exact System.timer_of_measuring htask hgate
    case sleeping period => exact System.timer_of_sleeping htask hgate
    case acquiring => exact System.timer_of_acquiring htask hgate
    case selecting => exact System.timer_of_selecting htask hgate
    case holding => exact System.timer_of_holding htask
    all_goals cases hplace

theorem admitted_manages : ∃ s, System.Reachable true s ∧ s.world.gate = some (.task 0) ∧
    s.Manages 0 (·.gate = none) := by
  obtain ⟨s, hreach, -, -, hworld⟩ := exists_admitted
  have hgate : s.world.gate = some (.task 0) := by rw [hworld]
  exact ⟨s, hreach, hgate, (locks_return hreach).1 0 hgate⟩

end

end SendTask

end WhatsappEsp32
