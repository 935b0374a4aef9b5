import Mathlib.Logic.Function.Basic
import Mathlib.Logic.Relation
import Mathlib.Order.Bounds.Basic
import Mathlib.Tactic.Linarith
import WhatsappEsp32.Admin.Maintenance
import WhatsappEsp32.Admin.QuietPeriod
import WhatsappEsp32.Lib.Trace

/-!
# The supervisor loop

`run_whatsapp` builds a client, runs it until it ends, and decides what to do next: start another
one after a while, give up, or erase the credentials.  What it decides by are two atomics per client
that `ClientExitObserver` writes whenever the server says something, also while the loop reads them
and after it has read them.  `Runtime::sleep` may return at once, so the loop looks at the clock.

* `ClientExit`, `SdkEvent.exit?`: the events that count, and what they ask for;
* `System`, `Phase`, `Move`: the loop, one await or access to shared state at a time;
* `Step`: the loop, the observers of all clients so far, maintenance, and the clock;
* `Allowed`: what must have happened before an event; `restarts_allowed`: it has, in every run.

Times are in nanoseconds.
-/

namespace WhatsappEsp32

open Trace

namespace ClientLoop

/-! ### Why a client stops -/

/-- Why the last client stopped, by severity. -/
inductive ClientExit
  | restart
  /-- The server said when to come back. -/
  | temporaryBan
  /-- No retry can help, but the credentials are valid. -/
  | preserveCredentials
  /-- The server unlinked this device. -/
  | resetCredentials
  deriving DecidableEq

namespace ClientExit

/-- The discriminant. -/
def toU8 : ClientExit → UInt8
  | .restart => 0
  | .temporaryBan => 1
  | .preserveCredentials => 2
  | .resetCredentials => 3

/-- `from_u8`: an unknown value restarts. -/
def fromU8 (value : UInt8) : ClientExit :=
  if value = 3 then .resetCredentials
  else if value = 2 then .preserveCredentials
  else if value = 1 then .temporaryBan
  else .restart

theorem toU8_injective : Function.Injective fun exit : ClientExit => exit.toU8.toNat := by
  intro a b h
  cases a <;> cases b <;> first | rfl | cases h

instance : LinearOrder ClientExit := LinearOrder.lift' _ toU8_injective

@[simp] theorem fromU8_toU8 (exit : ClientExit) : fromU8 exit.toU8 = exit := by
  cases exit <;> rfl

/-- `fetch_max` on the discriminants is the maximum of the exits. -/
theorem max_toU8 (a b : ClientExit) : max a.toU8 b.toU8 = (max a b).toU8 := by
  cases a <;> cases b <;> rfl

theorem restart_le (exit : ClientExit) : .restart ≤ exit := by
  cases exit <;> decide

end ClientExit

/-- What the observer asks a `ConnectFailureReason`: whether it is `LoggedOut`, and
`should_reconnect()`. -/
structure FailureReason where
  loggedOut : Bool
  shouldReconnect : Bool

/-- The events that the observer is registered for. -/
inductive SdkEvent
  /-- With or without the stanza of the server. -/
  | loggedOut (raw : Bool) (reason : FailureReason)
  | temporaryBan (expire : ℤ)
  | clientOutdated
  | streamReplaced
  | connectFailure (reason : FailureReason)

/-- The exit that an event of the SDK asks for. -/
def SdkEvent.exit? : SdkEvent → Option ClientExit
  | .loggedOut raw reason =>
    if raw && reason.loggedOut then some .resetCredentials
    else if raw then some .preserveCredentials
    else none
  | .temporaryBan _ => some .temporaryBan
  | .clientOutdated | .streamReplaced => some .preserveCredentials
  | .connectFailure reason => if !reason.shouldReconnect then some .preserveCredentials else none

/-- `u32::try_from(expire.max(0)).unwrap_or(u32::MAX)`. -/
def banSeconds (expire : ℤ) : ℕ := min expire.toNat (2 ^ 32 - 1)

/-! ### The system -/

/-- What the supervisor and the observers do. -/
inductive Event
  /-- `run_whatsapp_inner` is called for the client `g`. -/
  | start (g time : ℕ)
  /-- The builder fails. -/
  | failed (g : ℕ)
  /-- `active_client.set` and `active_client.clear_if`. -/
  | activate (g : ℕ)
  | deactivate (g : ℕ)
  /-- `temporary_ban_seconds.store`. -/
  | stored (g : ℕ) (expire : ℤ)
  /-- `outcome.fetch_max`. -/
  | raised (g : ℕ) (exit : ClientExit)
  /-- `exit_outcome.load`. -/
  | load (g : ℕ) (exit : ClientExit)
  /-- `set_logged_out` or `set_disconnected`. -/
  | status (g : ℕ) (loggedOut : Bool)
  /-- `TEMPORARY_BAN_WAIT.store`. -/
  | banWait (g seconds : ℕ)
  /-- The next client is to come this many seconds after the given time. -/
  | wait (g delay since : ℕ)
  | sleep (g time : ℕ)
  /-- No further client. -/
  | halt (g : ℕ)
  | reset (g : ℕ) (answer : MaintenanceRequest)

/-- Where the supervisor is: before the call or the check that the name says, for the client `g`. -/
inductive Phase
  | start
  | build (g : ℕ)
  | activate (g : ℕ)
  | run (g : ℕ)
  | deactivate (g : ℕ)
  | load (g : ℕ)
  | status (g : ℕ) (exit : ClientExit)
  | store (g : ℕ) (exit : ClientExit)
  /-- `match outcome`; `none` is an error of the builder. -/
  | decide (g : ℕ) (outcome : Option ClientExit)
  /-- The condition of the loop. -/
  | check (g delay since : ℕ)
  | sleep (g delay since : ℕ)
  /-- The check after the sleep. -/
  | recheck (g delay since : ℕ)
  /-- `std::thread::sleep(250 ms)` on the blocking worker, begun at the last time. -/
  | block (g delay since begun : ℕ)
  /-- `futures::future::pending`. -/
  | pending

/-- The state of the supervisor task, of its clients and of their observers. -/
structure System where
  clock : ℕ
  /-- How many clients there have been. -/
  created : ℕ
  /-- `exit_outcome` and `temporary_ban_seconds` of each of them. -/
  outcome : ℕ → UInt8
  seconds : ℕ → ℕ
  /-- The clients whose observer is between the two writes for a ban. -/
  raising : List ℕ
  /-- `TEMPORARY_BAN_WAIT`. -/
  banWait : ℕ
  active : Option ℕ
  maintenance : WhatsappEsp32.System
  phase : Phase
  log : List Event

namespace System

/-- The supervisor before its first client. -/
def initial : System :=
  ⟨0, 0, fun _ => ClientExit.restart.toU8, fun _ => 0, [], 0, none, .initial, .start, []⟩

/-- The next phase, and what has happened. -/
def goto (s : System) (phase : Phase) (es : List Event) : System :=
  { s with phase, log := s.log ++ es }

/-- `outcome.fetch_max(exit)`. -/
def fetchMax (s : System) (g : ℕ) (exit : ClientExit) : System :=
  { s with
    outcome := Function.update s.outcome g (max (s.outcome g) exit.toU8)
    log := s.log ++ [.raised g exit] }

/-- `active_client.clear_if`. -/
def clearIf (s : System) (g : ℕ) : System :=
  { s with active := if s.active = some g then none else s.active }

end System

/-- `Duration::from_millis`, in nanoseconds. -/
def fromMillis (n : ℕ) : ℕ := n * 1000000

theorem fromSecs_add (m n : ℕ) : fromSecs (m + n) = fromSecs m + fromSecs n := Nat.add_mul ..

theorem fromSecs_mono {m n : ℕ} (h : m ≤ n) : fromSecs m ≤ fromSecs n := Nat.mul_le_mul_right _ h

/-- The next step of the supervisor. -/
inductive Move (s : System) : System → Prop
  | start (h : s.phase = .start) :
      Move s ({ s with created := s.created + 1 }.goto (.build s.created) [.start s.created s.clock])
  | built {g : ℕ} (h : s.phase = .build g) : Move s (s.goto (.activate g) [])
  | failed {g : ℕ} (h : s.phase = .build g) : Move s (s.goto (.decide g none) [.failed g])
  | activate {g : ℕ} (h : s.phase = .activate g) :
      Move s ({ s with active := some g }.goto (.run g) [.activate g])
  | stopped {g : ℕ} (h : s.phase = .run g) : Move s (s.goto (.deactivate g) [])
  | deactivate {g : ℕ} (h : s.phase = .deactivate g) :
      Move s ((s.clearIf g).goto (.load g) [.deactivate g])
  | load {g : ℕ} (h : s.phase = .load g) :
      Move s (s.goto (.status g (.fromU8 (s.outcome g))) [.load g (.fromU8 (s.outcome g))])
  | status {g : ℕ} {exit : ClientExit} (h : s.phase = .status g exit) :
      Move s (s.goto (.store g exit) [.status g (exit = .resetCredentials)])
  /-- `seconds.saturating_add(5)`. -/
  | store {g : ℕ} {exit : ClientExit} (h : s.phase = .store g exit) :
      Move s ({ s with banWait := min (s.seconds g + 5) (2 ^ 32 - 1) }.goto (.decide g (some exit))
        [.banWait g (min (s.seconds g + 5) (2 ^ 32 - 1))])
  | error {g : ℕ} (h : s.phase = .decide g none) :
      Move s (s.goto (.check g 5 s.clock) [.wait g 5 s.clock])
  | restart {g : ℕ} (h : s.phase = .decide g (some .restart)) :
      Move s (s.goto (.check g 5 s.clock) [.wait g 5 s.clock])
  /-- `TEMPORARY_BAN_WAIT.swap(0).max(1)`. -/
  | temporaryBan {g : ℕ} (h : s.phase = .decide g (some .temporaryBan)) :
      Move s ({ s with banWait := 0 }.goto (.check g (max s.banWait 1) s.clock)
        [.wait g (max s.banWait 1) s.clock])
  | preserveCredentials {g : ℕ} (h : s.phase = .decide g (some .preserveCredentials)) :
      Move s (s.goto .pending [.halt g])
  | resetCredentials {g : ℕ} (h : s.phase = .decide g (some .resetCredentials)) :
      Move s ({ s with maintenance := s.maintenance.request .reset }.goto .pending
        [.reset g (MaintenanceCoordinator.request s.maintenance.state .reset).1])
  | early {g delay since : ℕ} (h : s.phase = .check g delay since)
      (hearly : s.clock - since < fromSecs delay) :
      Move s (s.goto (.sleep g delay since) [.sleep g s.clock])
  | elapsed {g delay since : ℕ} (h : s.phase = .check g delay since)
      (hover : fromSecs delay ≤ s.clock - since) : Move s (s.goto .start [])
  /-- The sleep may be as short as it likes. -/
  | woken {g delay since : ℕ} (h : s.phase = .sleep g delay since) :
      Move s (s.goto (.recheck g delay since) [])
  | stillEarly {g delay since : ℕ} (h : s.phase = .recheck g delay since)
      (hearly : s.clock - since < fromSecs delay) : Move s (s.goto (.block g delay since s.clock) [])
  | late {g delay since : ℕ} (h : s.phase = .recheck g delay since)
      (hover : fromSecs delay ≤ s.clock - since) : Move s (s.goto (.check g delay since) [])
  | blocked {g delay since begun : ℕ} (h : s.phase = .block g delay since begun)
      (hslept : begun + fromMillis 250 ≤ s.clock) : Move s (s.goto (.check g delay since) [])

/-- A move of the supervisor, the clock, or a write of an observer. -/
inductive Step (s : System) : System → Prop
  | supervisor {s' : System} (h : Move s s') : Step s s'
  | clock (later : ℕ) (h : s.clock ≤ later) : Step s { s with clock := later }
  /-- The first write of an observer for a ban, and the second one. -/
  | store {g : ℕ} (expire : ℤ) (h : g < s.created) :
      Step s { s with
        seconds := Function.update s.seconds g (banSeconds expire)
        raising := g :: s.raising
        log := s.log ++ [.stored g expire] }
  | raiseBan {g : ℕ} (h : g ∈ s.raising) :
      Step s { s.fetchMax g .temporaryBan with raising := s.raising.erase g }
  /-- The only write for any other event. -/
  | raise {g : ℕ} {event : SdkEvent} {exit : ClientExit} (h : g < s.created)
      (hexit : event.exit? = some exit) (hban : ∀ expire, event ≠ .temporaryBan expire) :
      Step s (s.fetchMax g exit)
  | maintenance {m : WhatsappEsp32.System} (h : s.maintenance.Step m) :
      Step s { s with maintenance := m }
  /-- `run_maintenance` clears the client that it has stopped. -/
  | clearClient (g : ℕ) : Step s (s.clearIf g)

/-- The systems that some interleaving leads to. -/
def Reachable (s : System) : Prop := Relation.ReflTransGen Step .initial s

/-! ### The log -/

namespace Event

/-- The client that an event is about. -/
def client : Event → ℕ
  | .start g _ | .failed g | .activate g | .deactivate g | .stored g _ | .raised g _ | .load g _
  | .status g _ | .banWait g _ | .wait g _ _ | .sleep g _ | .halt g | .reset g _ => g

/-- The expiry of a ban of client `g`. -/
def ban? (g : ℕ) : Event → Option ℤ
  | .stored g' expire => if g' = g then some expire else none
  | _ => none

/-- An event of the supervisor. -/
def ours : Event → Bool
  | .stored _ _ | .raised _ _ => false
  | _ => true

/-- An event of the supervisor that neither begins nor ends anything. -/
def plain : Event → Bool
  | .failed _ | .load _ _ | .status _ _ | .banWait _ _ | .wait _ _ _ | .sleep _ _ => true
  | _ => false

/-- The place of an event in the life of its client. -/
def rank : Event → ℕ
  | .start _ _ | .stored _ _ | .raised _ _ => 0
  | .failed _ | .activate _ => 1
  | .deactivate _ => 2
  | .load _ _ => 3
  | .status _ _ => 4
  | .banWait _ _ => 5
  | .wait _ _ _ | .halt _ | .reset _ _ => 6
  | .sleep _ _ => 7

end Event

/-- The last ban that client `g` was told of. -/
def lastBan (g : ℕ) (log : List Event) : Option ℤ := (log.filterMap (Event.ban? g)).getLast?

/-- The outcomes that client `g` may have been stopped for. -/
def outcomes (g : ℕ) (log : List Event) : Set ClientExit :=
  {exit | exit = .restart ∨ .raised g exit ∈ log}

/-- What must have happened before an event.  A client starts after the times that all clients
before it have asked for, at least five seconds after the last one, and never after the supervisor
gave up; it becomes active when no other one is; what is loaded is the worst outcome so far; what
follows is what that outcome asks for, in particular five seconds more than the last ban; and however
often the sleeps fail, there are 250 ms between two of them. -/
def Allowed (past : List Event) : Event → Prop
  | .start g time =>
    (∀ g', .halt g' ∉ past ∧ ∀ answer, .reset g' answer ∉ past) ∧
    (∀ g' < g, ∃ delay since, .wait g' delay since ∈ past ∧ since + fromSecs delay ≤ time) ∧
    ∀ g' time', .start g' time' ∈ past → g' < g ∧ time' + fromSecs (5 * (g - g')) ≤ time
  | .activate g => ∀ g', .activate g' ∈ past → g' < g ∧ .deactivate g' ∈ past
  | .load g exit => IsGreatest (outcomes g past) exit ∧ ∀ exit', .load g exit' ∉ past
  | .status g loggedOut =>
    ∃ exit, .load g exit ∈ past ∧ (loggedOut = true ↔ exit = .resetCredentials)
  | .banWait g seconds =>
    (∀ seconds', .banWait g seconds' ∉ past) ∧
    (.load g .temporaryBan ∈ past → lastBan g past ≠ none) ∧
    ∀ expire, lastBan g past = some expire → seconds = min (expire.toNat + 5) (2 ^ 32 - 1)
  | .wait g delay _ =>
    (∀ delay' since', .wait g delay' since' ∉ past) ∧
    (.failed g ∈ past ∧ delay = 5 ∨ .load g .restart ∈ past ∧ delay = 5 ∨
      .load g .temporaryBan ∈ past ∧ .banWait g delay ∈ past)
  | .sleep g time =>
    (∀ time', .sleep g time' ∈ past → time' + fromMillis 250 ≤ time) ∧
    ∃ delay since, .wait g delay since ∈ past ∧ time < since + fromSecs delay
  | .halt g => .load g .preserveCredentials ∈ past
  | .reset g _ => .load g .resetCredentials ∈ past
  | _ => True

/-! ### The invariant -/

/-- The atomics say what the log says. -/
structure Recorded (s : System) : Prop where
  outcome : ∀ g, ∃ exit, s.outcome g = exit.toU8 ∧ IsGreatest (outcomes g s.log) exit
  seconds : ∀ g, s.seconds g = banSeconds ((lastBan g s.log).getD 0)
  raising : ∀ g ∈ s.raising, lastBan g s.log ≠ none
  raised : ∀ g, .raised g .temporaryBan ∈ s.log → lastBan g s.log ≠ none

/-- The clients before the present one have had their time: the starts are five seconds apart, and
the last one was at least that long before `time` when `n` more are to be counted. -/
def Spaced (log : List Event) (n time : ℕ) : Prop :=
  ∀ g time', .start g time' ∈ log → g < n ∧ time' + fromSecs (5 * (n - 1 - g)) ≤ time

/-- The wait of client `g` is over. -/
def Waited (log : List Event) (g time : ℕ) : Prop :=
  ∃ delay since, .wait g delay since ∈ log ∧ since + fromSecs delay ≤ time

/-- The wait for the next client. -/
structure Waiting (s : System) (g delay since : ℕ) : Prop where
  client : g + 1 = s.created
  wait : .wait g delay since ∈ s.log
  long : 5 ≤ delay
  begun : since ≤ s.clock
  spaced : Spaced s.log s.created since

/-- The client is the present one, and nothing has come of it that has this rank. -/
def Present (s : System) (g rank : ℕ) : Prop :=
  g + 1 = s.created ∧ ∀ e ∈ s.log, e.client = g → e.rank < rank

/-- What the log says about where the supervisor is. -/
def PhaseOk (s : System) : Phase → Prop
  | .start => (∀ g < s.created, Waited s.log g s.clock) ∧ Spaced s.log (s.created + 1) s.clock
  | .build g | .activate g => Present s g 1
  | .run g | .deactivate g => Present s g 2 ∧ .activate g ∈ s.log
  | .load g => Present s g 3
  | .status g exit => Present s g 4 ∧ .load g exit ∈ s.log
  | .store g exit => Present s g 5 ∧ .load g exit ∈ s.log
  | .decide g none => Present s g 6 ∧ .failed g ∈ s.log
  | .decide g (some exit) =>
    Present s g 6 ∧ .load g exit ∈ s.log ∧ .banWait g s.banWait ∈ s.log ∧ 5 ≤ s.banWait
  | .check g delay since => Waiting s g delay since ∧
    (since + fromSecs delay ≤ s.clock ∨
      ∀ time, .sleep g time ∈ s.log → time + fromMillis 250 ≤ s.clock)
  | .sleep g delay since | .recheck g delay since => Waiting s g delay since ∧
    ∀ time, .sleep g time ∈ s.log → time ≤ s.clock
  | .block g delay since begun => Waiting s g delay since ∧
    ∀ time, .sleep g time ∈ s.log → time ≤ begun
  | .pending => True

/-- The client that is running. -/
def Phase.running? : Phase → Option ℕ
  | .run g | .deactivate g => some g
  | _ => none

/-- The invariant of the supervisor task. -/
structure Ok (s : System) : Prop where
  allowed : Always Allowed s.log
  recorded : Recorded s
  bounded : ∀ e ∈ s.log, e.client < s.created
  waited : ∀ g, g + 1 < s.created → Waited s.log g s.clock
  spaced : Spaced s.log s.created s.clock
  halted : s.phase ≠ .pending → ∀ g, .halt g ∉ s.log ∧ ∀ answer, .reset g answer ∉ s.log
  active : ∀ g, s.active = some g → s.phase.running? = some g
  activated : ∀ g, .activate g ∈ s.log → .deactivate g ∈ s.log ∨ s.phase.running? = some g
  phase : PhaseOk s s.phase

/-! ### What the observers write -/

section

variable {s s' : System} {g g' : ℕ} {log es : List Event} {e : Event}

theorem lastBan_append (h : ∀ e ∈ es, e.ban? g = none) : lastBan g (log ++ es) = lastBan g log := by
  have hnil : es.filterMap (Event.ban? g) = [] := List.filterMap_eq_nil_iff.mpr h
  rw [lastBan, List.filterMap_append, hnil, List.append_nil, lastBan]

theorem lastBan_stored (expire : ℤ) :
    lastBan g (log ++ [.stored g' expire]) = if g' = g then some expire else lastBan g log := by
  by_cases hg : g' = g
  · simp [lastBan, Event.ban?, hg]
  · rw [if_neg hg]
    apply lastBan_append
    simp [Event.ban?, hg]

theorem Event.ban?_of_ours (h : e.ours = true) : e.ban? g = none := by
  cases e <;> first | rfl | cases h

theorem outcomes_append (h : ∀ exit, .raised g exit ∉ es) : outcomes g (log ++ es) = outcomes g log := by
  ext exit
  simp [outcomes, h exit]

/-- What the supervisor writes down is nothing about the atomics. -/
theorem Recorded.append (h : Recorded s) (houtcome : s'.outcome = s.outcome)
    (hseconds : s'.seconds = s.seconds) (hraising : s'.raising = s.raising)
    (hlog : s'.log = s.log ++ es) (hours : ∀ e ∈ es, e.ours = true) : Recorded s' := by
  have hban : ∀ g, lastBan g s'.log = lastBan g s.log := by
    intro g
    rw [hlog]
    exact lastBan_append fun e he => Event.ban?_of_ours (hours e he)
  have hnone : ∀ g exit, .raised g exit ∉ es := by
    intro g exit hmem
    cases hours _ hmem
  constructor
  · intro g
    rw [houtcome, hlog, outcomes_append (hnone g)]
    exact h.outcome g
  · intro g
    rw [hseconds, hban]
    exact h.seconds g
  · intro g hg
    rw [hban]
    exact h.raising g (hraising ▸ hg)
  · intro g hg
    rw [hban]
    rw [hlog, List.mem_append] at hg
    exact h.raised g (hg.resolve_right (hnone g _))

/-- The first write for a ban. -/
theorem Recorded.store (h : Recorded s) (expire : ℤ) :
    Recorded { s with
      seconds := Function.update s.seconds g (banSeconds expire)
      raising := g :: s.raising
      log := s.log ++ [.stored g expire] } := by
  have hsome : ∀ {g'}, lastBan g' s.log ≠ none → lastBan g' (s.log ++ [.stored g expire]) ≠ none := by
    intro g' hne
    rw [lastBan_stored]
    split
    · exact Option.some_ne_none _
    · exact hne
  constructor
  · intro g'
    rw [outcomes_append (by simp)]
    exact h.outcome g'
  · intro g'
    by_cases hg : g = g'
    · subst hg
      simp [lastBan_stored]
    · simp only [Function.update_of_ne (Ne.symm hg), lastBan_stored, if_neg hg]
      exact h.seconds g'
  · intro g' hmem
    rcases List.mem_cons.mp hmem with rfl | hmem
    · simp [lastBan_stored]
    · exact hsome (h.raising g' hmem)
  · intro g' hmem
    exact hsome (h.raised g' (by simpa using hmem))

/-- `fetch_max` keeps the worst outcome. -/
theorem Recorded.fetchMax (h : Recorded s) {exit : ClientExit} {raising : List ℕ}
    (hsub : raising ⊆ s.raising) (hban : exit = .temporaryBan → lastBan g s.log ≠ none) :
    Recorded { s.fetchMax g exit with raising } := by
  have hlast : ∀ g', lastBan g' (s.log ++ [.raised g exit]) = lastBan g' s.log :=
    fun g' => lastBan_append (by simp [Event.ban?])
  constructor
  · intro g'
    obtain ⟨worst, hworst, hgreatest⟩ := h.outcome g'
    by_cases hg : g' = g
    · subst hg
      refine ⟨max worst exit, ?_, ?_, ?_⟩
      · simp [System.fetchMax, hworst, ClientExit.max_toU8]
      · rcases max_choice worst exit with hmax | hmax <;> rw [hmax]
        · exact hgreatest.1.imp_right (List.mem_append_left _)
        · exact Or.inr (by simp [System.fetchMax])
      · rintro other (rfl | hother)
        · exact ClientExit.restart_le _
        · rcases List.mem_append.mp hother with hother | hother
          · exact le_max_of_le_left (hgreatest.2 (Or.inr hother))
          · cases List.mem_singleton.mp hother
            exact le_max_right _ _
    · refine ⟨worst, ?_, ?_⟩
      · simp [System.fetchMax, Function.update_of_ne hg, hworst]
      · have hother : outcomes g' (s.log ++ [.raised g exit]) = outcomes g' s.log :=
          outcomes_append (by simp [hg])
        simpa only [System.fetchMax, hother] using hgreatest
  · intro g'
    simp only [System.fetchMax, hlast]
    exact h.seconds g'
  · intro g' hmem
    simp only [System.fetchMax, hlast]
    exact h.raising g' (hsub hmem)
  · intro g' hmem
    simp only [System.fetchMax, hlast] at hmem ⊢
    rcases List.mem_append.mp hmem with hmem | hmem
    · exact h.raised g' hmem
    · cases List.mem_singleton.mp hmem
      exact hban rfl

end

/-! ### The other parties -/

section

variable {s s' : System} {g rank delay n since time : ℕ} {log es : List Event}
  {phase : Phase}

theorem Spaced.append (h : Spaced log n time) (hle : time ≤ since)
    (hstart : ∀ g time, .start g time ∉ es) : Spaced (log ++ es) n since := by
  intro g time' hmem
  have hmem := (List.mem_append.mp hmem).resolve_right (hstart g time')
  exact ⟨(h g time' hmem).1, (h g time' hmem).2.trans hle⟩

theorem Waited.append (h : Waited log g time) (hle : time ≤ since) : Waited (log ++ es) g since := by
  obtain ⟨delay, begun, hmem, hover⟩ := h
  exact ⟨delay, begun, List.mem_append_left _ hmem, hover.trans hle⟩

theorem Present.append (h : Present s g rank) {rank' : ℕ} (hcreated : s'.created = s.created)
    (hlog : s'.log = s.log ++ es) (hle : rank ≤ rank') (hes : ∀ e ∈ es, e.rank < rank') :
    Present s' g rank' := by
  refine ⟨by rw [hcreated, h.1], ?_⟩
  intro e hmem hclient
  rw [hlog] at hmem
  rcases List.mem_append.mp hmem with hmem | hmem
  · exact (h.2 e hmem hclient).trans_le hle
  · exact hes e hmem

theorem Waiting.append (h : Waiting s g delay since) (hcreated : s'.created = s.created)
    (hclock : s.clock ≤ s'.clock) (hlog : s'.log = s.log ++ es)
    (hstart : ∀ g time, .start g time ∉ es) : Waiting s' g delay since where
  client := by rw [hcreated, h.client]
  wait := by rw [hlog]; exact List.mem_append_left _ h.wait
  long := h.long
  begun := h.begun.trans hclock
  spaced := by
    rw [hcreated, hlog]
    exact h.spaced.append le_rfl hstart

/-- Neither time nor the observers change where the supervisor is. -/
theorem PhaseOk.append (h : PhaseOk s phase) (hcreated : s'.created = s.created)
    (hbanWait : s'.banWait = s.banWait) (hclock : s.clock ≤ s'.clock)
    (hlog : s'.log = s.log ++ es) (hes : ∀ e ∈ es, e.ours = false) : PhaseOk s' phase := by
  have hmono : ∀ {e}, e ∈ s.log → e ∈ s'.log := by
    intro e he
    rw [hlog]
    exact List.mem_append_left _ he
  -- the events are those of an observer, so none of the supervisor's own is among them
  have hstart : ∀ g time, .start g time ∉ es := by
    intro g time hmem
    cases hes _ hmem
  have hsleep : ∀ {g time}, .sleep g time ∈ s'.log → .sleep g time ∈ s.log := by
    intro g time hmem
    rw [hlog] at hmem
    refine (List.mem_append.mp hmem).resolve_right fun hmem => ?_
    cases hes _ hmem
  have hpresent : ∀ {g rank}, Present s g (rank + 1) → Present s' g (rank + 1) := by
    intro g rank hpresent
    refine hpresent.append hcreated hlog le_rfl fun e he => ?_
    have hours := hes e he
    cases e <;> first | exact Nat.succ_pos _ | cases hours
  have hwaiting : ∀ {g delay since}, Waiting s g delay since → Waiting s' g delay since :=
    fun hwaiting => hwaiting.append hcreated hclock hlog hstart
  cases phase with
  | start =>
    refine ⟨fun g hg => ?_, ?_⟩
    · rw [hlog]
      exact (h.1 g (hcreated ▸ hg)).append hclock
    · rw [hlog, hcreated]
      exact h.2.append hclock hstart
  | build g => exact hpresent h
  | activate g => exact hpresent h
  | run g => exact ⟨hpresent h.1, hmono h.2⟩
  | deactivate g => exact ⟨hpresent h.1, hmono h.2⟩
  | load g => exact hpresent h
  | status g exit => exact ⟨hpresent h.1, hmono h.2⟩
  | store g exit => exact ⟨hpresent h.1, hmono h.2⟩
  | decide g outcome =>
    cases outcome with
    | none => exact ⟨hpresent h.1, hmono h.2⟩
    | some exit =>
      refine ⟨hpresent h.1, hmono h.2.1, ?_⟩
      rw [hbanWait]
      exact ⟨hmono h.2.2.1, h.2.2.2⟩
  | check g delay since =>
    refine ⟨hwaiting h.1, h.2.imp hclock.trans' fun hsleeps time hmem => ?_⟩
    exact (hsleeps time (hsleep hmem)).trans hclock
  | sleep g delay since =>
    exact ⟨hwaiting h.1, fun time hmem => (h.2 time (hsleep hmem)).trans hclock⟩
  | recheck g delay since =>
    exact ⟨hwaiting h.1, fun time hmem => (h.2 time (hsleep hmem)).trans hclock⟩
  | block g delay since begun => exact ⟨hwaiting h.1, fun time hmem => h.2 time (hsleep hmem)⟩
  | pending => trivial

/-- What the other parties do keeps the invariant. -/
theorem Ok.append (h : Ok s) (hrecorded : Recorded s') (hcreated : s'.created = s.created)
    (hbanWait : s'.banWait = s.banWait) (hclock : s.clock ≤ s'.clock) (hphase : s'.phase = s.phase)
    (hactive : ∀ g, s'.active = some g → s.active = some g) (hlog : s'.log = s.log ++ es)
    (hes : ∀ e ∈ es, e.ours = false ∧ e.client < s.created) (hallowed : Always Allowed s'.log) :
    Ok s' where
  allowed := hallowed
  recorded := hrecorded
  bounded := by
    intro e he
    rw [hlog] at he
    rw [hcreated]
    exact (List.mem_append.mp he).elim (h.bounded e) fun he => (hes e he).2
  waited := by
    intro g hg
    rw [hlog]
    exact (h.waited g (hcreated ▸ hg)).append hclock
  spaced := by
    rw [hlog, hcreated]
    refine h.spaced.append hclock fun g time hmem => ?_
    cases (hes _ hmem).1
  halted := by
    intro hrunning g
    rw [hphase] at hrunning
    rw [hlog]
    constructor
    · intro hmem
      refine (List.mem_append.mp hmem).elim (h.halted hrunning g).1 fun hmem => ?_
      cases (hes _ hmem).1
    · intro answer hmem
      refine (List.mem_append.mp hmem).elim ((h.halted hrunning g).2 answer) fun hmem => ?_
      cases (hes _ hmem).1
  active := by
    intro g hg
    rw [hphase]
    exact h.active g (hactive g hg)
  activated := by
    intro g hmem
    rw [hlog] at hmem ⊢
    have hmem := (List.mem_append.mp hmem).resolve_right fun hmem => by cases (hes _ hmem).1
    rw [hphase]
    exact (h.activated g hmem).imp_left (List.mem_append_left _)
  phase := by
    rw [hphase]
    exact h.phase.append hcreated hbanWait hclock hlog fun e he => (hes e he).1

end

/-! ### The supervisor -/

section

variable {s s' : System} {g rank delay since : ℕ} {log es : List Event} {phase : Phase}
  {exit : ClientExit}

theorem Event.ours_of_plain {e : Event} (h : e.plain = true) : e.ours = true := by
  cases e <;> first | rfl | cases h

/-- A move of the supervisor with the present client. -/
theorem Ok.move (h : Ok s) {active : Option ℕ} {banWait : ℕ} {maintenance : WhatsappEsp32.System}
    (hes : ∀ e ∈ es, e.ours = true ∧ e.client < s.created) (hstart : ∀ g time, .start g time ∉ es)
    (hallowed : Always Allowed (s.log ++ es))
    (hhalted : phase ≠ .pending → ∀ g, .halt g ∉ s.log ++ es ∧ ∀ answer, .reset g answer ∉ s.log ++ es)
    (hactive : ∀ g, active = some g → phase.running? = some g)
    (hactivated : ∀ g, .activate g ∈ s.log ++ es →
      .deactivate g ∈ s.log ++ es ∨ phase.running? = some g)
    (hphase : PhaseOk ({ s with active, banWait, maintenance }.goto phase es) phase) :
    Ok ({ s with active, banWait, maintenance }.goto phase es) where
  allowed := hallowed
  recorded := h.recorded.append rfl rfl rfl rfl fun e he => (hes e he).1
  bounded := by
    intro e he
    exact (List.mem_append.mp he).elim (h.bounded e) fun he => (hes e he).2
  waited := fun g hg => (h.waited g hg).append le_rfl
  spaced := h.spaced.append le_rfl hstart
  halted := hhalted
  active := hactive
  activated := hactivated
  phase := hphase

/-- A move that neither begins nor ends anything. -/
theorem Ok.plain (h : Ok s) {banWait : ℕ} (hpending : s.phase ≠ .pending)
    (hrunning : phase.running? = s.phase.running?)
    (hes : ∀ e ∈ es, e.plain = true ∧ e.client < s.created) (hallowed : Always Allowed (s.log ++ es))
    (hphase : PhaseOk ({ s with banWait }.goto phase es) phase) :
    Ok ({ s with banWait }.goto phase es) := by
  have hold : ∀ {e : Event}, e.plain = false → e ∈ s.log ++ es → e ∈ s.log := by
    intro e hplain hmem
    refine (List.mem_append.mp hmem).resolve_right fun hmem => ?_
    rw [(hes e hmem).1] at hplain
    cases hplain
  refine h.move (fun e he => ⟨Event.ours_of_plain (hes e he).1, (hes e he).2⟩) ?_ hallowed ?_ ?_ ?_
    hphase
  · intro g time hmem
    cases (hes _ hmem).1
  · intro _ g
    exact ⟨fun hmem => (h.halted hpending g).1 (hold rfl hmem),
      fun answer hmem => (h.halted hpending g).2 answer (hold rfl hmem)⟩
  · rw [hrunning]
    exact h.active
  · intro g hmem
    rw [hrunning]
    exact (h.activated g (hold rfl hmem)).imp_left (List.mem_append_left _)

/-- A move on which nothing is written down. -/
theorem Ok.silent (h : Ok s) (hpending : s.phase ≠ .pending)
    (hrunning : phase.running? = s.phase.running?) (hphase : PhaseOk s phase) :
    Ok (s.goto phase []) := by
  have hlog : s.log ++ [] = s.log := List.append_nil _
  refine h.plain hpending hrunning (by simp) (hlog.symm ▸ h.allowed) ?_
  exact hphase.append rfl rfl le_rfl rfl (by simp)

theorem Ok.phase_of (h : Ok s) (hphase : s.phase = phase) : PhaseOk s phase := hphase ▸ h.phase

theorem Ok.start (h : Ok s) (hphase : s.phase = .start) :
    Ok ({ s with created := s.created + 1 }.goto (.build s.created)
      [.start s.created s.clock]) := by
  obtain ⟨hwaited, hspaced⟩ := h.phase_of hphase
  have hrunning : ∀ g, s.phase.running? ≠ some g := by simp [hphase, Phase.running?]
  have hhalted := h.halted (by simp [hphase])
  constructor
  · refine always_append_singleton.mpr ⟨h.allowed, hhalted, hwaited, fun g time hmem => ?_⟩
    have hlt : g < s.created := h.bounded _ hmem
    have hbefore := (hspaced g time hmem).2
    exact ⟨hlt, by simpa using hbefore⟩
  · exact h.recorded.append rfl rfl rfl rfl (by simp [Event.ours])
  · intro e he
    rcases List.mem_append.mp he with he | he
    · exact (h.bounded e he).trans (Nat.lt_succ_self _)
    · cases List.mem_singleton.mp he
      exact Nat.lt_succ_self _
  · exact fun g hg => (hwaited g (Nat.lt_of_succ_lt_succ hg)).append le_rfl
  · intro g time hmem
    rcases List.mem_append.mp hmem with hmem | hmem
    · exact hspaced g time hmem
    · cases List.mem_singleton.mp hmem
      simp [System.goto, fromSecs]
  · intro _ g
    simpa [System.goto] using hhalted g
  · intro g hg
    exact absurd (h.active g hg) (hrunning g)
  · intro g hmem
    have hmem : .activate g ∈ s.log := by simpa [System.goto] using hmem
    exact Or.inl (List.mem_append_left _ ((h.activated g hmem).resolve_right (hrunning g)))
  · refine ⟨rfl, fun e he hclient => ?_⟩
    rcases List.mem_append.mp he with he | he
    · exact absurd hclient (h.bounded e he).ne
    · cases List.mem_singleton.mp he
      exact Nat.one_pos

theorem Ok.failed (h : Ok s) (hphase : s.phase = .build g) :
    Ok (s.goto (.decide g none) [.failed g]) := by
  have hpresent : Present s g 1 := h.phase_of hphase
  refine h.plain (by simp [hphase]) (by simp [hphase, Phase.running?]) ?_ ?_ ⟨?_, by simp [System.goto]⟩
  · simpa [Event.plain, Event.client] using hpresent.1.le
  · exact always_append_singleton.mpr ⟨h.allowed, trivial⟩
  · exact hpresent.append rfl rfl (by omega) (by simp [Event.rank])

theorem Ok.activate (h : Ok s) (hphase : s.phase = .activate g) :
    Ok ({ s with active := some g }.goto (.run g) [.activate g]) := by
  have hpresent : Present s g 1 := h.phase_of hphase
  have hgone : ∀ g', .activate g' ∈ s.log → .deactivate g' ∈ s.log := by
    intro g' hmem
    exact (h.activated g' hmem).resolve_right (by simp [hphase, Phase.running?])
  refine h.move ?_ (by simp) ?_ ?_ ?_ ?_ ⟨?_, by simp [System.goto]⟩
  · simpa [Event.ours, Event.client] using hpresent.1.le
  · refine always_append_singleton.mpr ⟨h.allowed, fun g' hmem => ⟨?_, hgone g' hmem⟩⟩
    have hlt : g' < s.created := h.bounded _ hmem
    have hne : g' ≠ g := fun heq => absurd (hpresent.2 _ hmem heq) (by simp [Event.rank])
    have hcreated := hpresent.1
    omega
  · intro _ g
    simpa using h.halted (by simp [hphase]) g
  · intro g' hg'
    exact hg'
  · intro g' hmem
    rcases List.mem_append.mp hmem with hmem | hmem
    · exact Or.inl (List.mem_append_left _ (hgone g' hmem))
    · cases List.mem_singleton.mp hmem
      exact Or.inr rfl
  · exact hpresent.append rfl rfl (by omega) (by simp [Event.rank])

theorem Ok.deactivate (h : Ok s) (hphase : s.phase = .deactivate g) :
    Ok ((s.clearIf g).goto (.load g) [.deactivate g]) := by
  obtain ⟨hpresent, -⟩ : Present s g 2 ∧ _ := h.phase_of hphase
  have hrunning : s.phase.running? = some g := by simp [hphase, Phase.running?]
  refine h.move ?_ (by simp) ?_ ?_ ?_ ?_ ?_
  · simpa [Event.ours, Event.client] using hpresent.1.le
  · exact always_append_singleton.mpr ⟨h.allowed, trivial⟩
  · intro _ g
    simpa using h.halted (by simp [hphase]) g
  · -- Whoever is active is the client that is cleared.
    intro g' hg'
    split at hg'
    · cases hg'
    · rename_i hne
      have hg := hrunning.symm.trans (h.active g' hg')
      rw [← Option.some.inj hg] at hg'
      exact absurd hg' hne
  · intro g' hmem
    have hmem : .activate g' ∈ s.log := by simpa using hmem
    refine Or.inl ?_
    rcases h.activated g' hmem with hmem | hg
    · exact List.mem_append_left _ hmem
    · rw [hrunning] at hg
      cases hg
      simp
  · exact hpresent.append rfl rfl (by omega) (by simp [Event.rank])

theorem Ok.load (h : Ok s) (hphase : s.phase = .load g) :
    Ok (s.goto (.status g (.fromU8 (s.outcome g))) [.load g (.fromU8 (s.outcome g))]) := by
  have hpresent : Present s g 3 := h.phase_of hphase
  obtain ⟨exit, hexit, hgreatest⟩ := h.recorded.outcome g
  rw [hexit, ClientExit.fromU8_toU8]
  refine h.plain (by simp [hphase]) (by simp [hphase, Phase.running?]) ?_ ?_ ⟨?_, by simp [System.goto]⟩
  · simpa [Event.plain, Event.client] using hpresent.1.le
  · refine always_append_singleton.mpr ⟨h.allowed, hgreatest, fun exit' hmem => ?_⟩
    exact absurd (hpresent.2 _ hmem rfl) (by simp [Event.rank])
  · exact hpresent.append rfl rfl (by omega) (by simp [Event.rank])

theorem Ok.status (h : Ok s) (hphase : s.phase = .status g exit) :
    Ok (s.goto (.store g exit) [.status g (exit = .resetCredentials)]) := by
  obtain ⟨hpresent, hload⟩ : Present s g 4 ∧ Event.load g exit ∈ s.log := h.phase_of hphase
  refine h.plain (by simp [hphase]) (by simp [hphase, Phase.running?]) ?_ ?_
    ⟨?_, List.mem_append_left _ hload⟩
  · simpa [Event.plain, Event.client] using hpresent.1.le
  · exact always_append_singleton.mpr ⟨h.allowed, exit, hload, by simp⟩
  · exact hpresent.append rfl rfl (by omega) (by simp [Event.rank])

/-- A client that is stopped for a ban has been told how long it is. -/
theorem Ok.banned (h : Ok s) (hload : .load g .temporaryBan ∈ s.log) : lastBan g s.log ≠ none := by
  obtain ⟨pre, post, hlog⟩ := List.append_of_mem hload
  obtain ⟨⟨hmem, -⟩, -⟩ := h.allowed pre _ post hlog
  rcases hmem with hrestart | hraised
  · cases hrestart
  · apply h.recorded.raised g
    rw [hlog]
    exact List.mem_append_left _ hraised

theorem Ok.store (h : Ok s) (hphase : s.phase = .store g exit) :
    Ok ({ s with banWait := min (s.seconds g + 5) (2 ^ 32 - 1) }.goto (.decide g (some exit))
      [.banWait g (min (s.seconds g + 5) (2 ^ 32 - 1))]) := by
  obtain ⟨hpresent, hload⟩ : Present s g 5 ∧ Event.load g exit ∈ s.log := h.phase_of hphase
  refine h.plain (by simp [hphase]) (by simp [hphase, Phase.running?]) ?_ ?_
    ⟨?_, List.mem_append_left _ hload, by simp [System.goto], ?_⟩
  · simpa [Event.plain, Event.client] using hpresent.1.le
  · refine always_append_singleton.mpr ⟨h.allowed, ?_, h.banned, ?_⟩
    · intro seconds hmem
      exact absurd (hpresent.2 _ hmem rfl) (by simp [Event.rank])
    · intro expire hlast
      rw [h.recorded.seconds, hlast, Option.getD_some, banSeconds]
      omega
  · exact hpresent.append rfl rfl (by omega) (by simp [Event.rank])
  · change 5 ≤ min (s.seconds g + 5) (2 ^ 32 - 1)
    omega

/-- The wait for the next client begins. -/
theorem Ok.wait (h : Ok s) {outcome : Option ClientExit} {banWait : ℕ}
    (hphase : s.phase = .decide g outcome) (hpresent : Present s g 6) (hlong : 5 ≤ delay)
    (hwhy : .failed g ∈ s.log ∧ delay = 5 ∨ .load g .restart ∈ s.log ∧ delay = 5 ∨
      .load g .temporaryBan ∈ s.log ∧ .banWait g delay ∈ s.log) :
    Ok ({ s with banWait }.goto (.check g delay s.clock) [.wait g delay s.clock]) := by
  refine h.plain (by simp [hphase]) (by simp [hphase, Phase.running?]) ?_ ?_ ⟨?_, ?_⟩
  · simpa [Event.plain, Event.client] using hpresent.1.le
  · refine always_append_singleton.mpr ⟨h.allowed, fun delay' since' hmem => ?_, hwhy⟩
    exact absurd (hpresent.2 _ hmem rfl) (by simp [Event.rank])
  · exact ⟨hpresent.1, by simp [System.goto], hlong, le_rfl, h.spaced.append le_rfl (by simp)⟩
  · refine Or.inr fun time hmem => ?_
    have hmem : .sleep g time ∈ s.log := by simpa [System.goto] using hmem
    exact absurd (hpresent.2 _ hmem rfl) (by simp [Event.rank])

/-- There is no further client. -/
theorem Ok.pending (h : Ok s) {outcome : Option ClientExit} {maintenance : WhatsappEsp32.System}
    {e : Event} (hphase : s.phase = .decide g outcome) (hclient : e.client < s.created)
    (he : e.ours = true) (hactivate : ∀ g, e ≠ .activate g) (hstart : ∀ g time, e ≠ .start g time)
    (hallowed : Allowed s.log e) : Ok ({ s with maintenance }.goto .pending [e]) := by
  have hrunning : s.phase.running? = none := by simp [hphase, Phase.running?]
  refine h.move (by simp [he, hclient]) ?_ ?_ ?_ ?_ ?_ trivial
  · simpa using fun g time => (hstart g time).symm
  · exact always_append_singleton.mpr ⟨h.allowed, hallowed⟩
  · exact fun hne => absurd rfl hne
  · intro g hg
    have hnone := h.active g hg
    rw [hrunning] at hnone
    cases hnone
  · intro g hmem
    have hmem : .activate g ∈ s.log := by simpa [(hactivate g).symm] using hmem
    have hgone := h.activated g hmem
    rw [hrunning] at hgone
    exact hgone.imp_left (List.mem_append_left _)

theorem Ok.early (h : Ok s) (hphase : s.phase = .check g delay since)
    (hearly : s.clock - since < fromSecs delay) :
    Ok (s.goto (.sleep g delay since) [.sleep g s.clock]) := by
  obtain ⟨hwaiting, hsleeps⟩ : Waiting s g delay since ∧ _ := h.phase_of hphase
  have hsleeps := hsleeps.resolve_left (by omega)
  refine h.plain (by simp [hphase]) (by simp [hphase, Phase.running?]) ?_ ?_
    ⟨hwaiting.append rfl le_rfl rfl (by simp), ?_⟩
  · simpa [Event.plain, Event.client] using hwaiting.client.le
  · refine always_append_singleton.mpr ⟨h.allowed, hsleeps, delay, since, hwaiting.wait, ?_⟩
    have hbegun := hwaiting.begun
    omega
  · intro time hmem
    rcases List.mem_append.mp hmem with hmem | hmem
    · exact (Nat.le_add_right _ _).trans (hsleeps time hmem)
    · cases List.mem_singleton.mp hmem
      exact le_rfl

/-- The time of the next client has come. -/
theorem Ok.elapsed (h : Ok s) (hphase : s.phase = .check g delay since)
    (hover : fromSecs delay ≤ s.clock - since) : Ok (s.goto .start []) := by
  obtain ⟨hwaiting, -⟩ : Waiting s g delay since ∧ _ := h.phase_of hphase
  have hbegun := hwaiting.begun
  have hcreated := hwaiting.client
  refine h.silent (by simp [hphase]) (by simp [hphase, Phase.running?]) ⟨fun g' hg' => ?_, ?_⟩
  · by_cases hlast : g' = g
    · subst hlast
      exact ⟨delay, since, hwaiting.wait, by omega⟩
    · exact h.waited g' (by omega)
  · intro g' time hmem
    obtain ⟨hlt, hspaced⟩ := hwaiting.spaced g' time hmem
    refine ⟨hlt.trans (Nat.lt_succ_self _), ?_⟩
    have hnext : 5 * (s.created + 1 - 1 - g') = 5 * (s.created - 1 - g') + 5 := by omega
    have hlong : fromSecs 5 ≤ fromSecs delay := fromSecs_mono hwaiting.long
    rw [hnext, fromSecs_add]
    omega

theorem Ok.supervisor (h : Ok s) (hmove : Move s s') : Ok s' := by
  cases hmove with
  | start hphase => exact h.start hphase
  | built hphase =>
    have hpresent := h.phase_of hphase
    exact h.silent (by simp [hphase]) (by simp [hphase, Phase.running?]) hpresent
  | failed hphase => exact h.failed hphase
  | activate hphase => exact h.activate hphase
  | stopped hphase =>
    have hpresent := h.phase_of hphase
    exact h.silent (by simp [hphase]) (by simp [hphase, Phase.running?]) hpresent
  | deactivate hphase => exact h.deactivate hphase
  | load hphase => exact h.load hphase
  | status hphase => exact h.status hphase
  | store hphase => exact h.store hphase
  | error hphase =>
    obtain ⟨hpresent, hfailed⟩ := h.phase_of hphase
    exact h.wait hphase hpresent le_rfl (Or.inl ⟨hfailed, rfl⟩)
  | restart hphase =>
    obtain ⟨hpresent, hload, -⟩ := h.phase_of hphase
    exact h.wait hphase hpresent le_rfl (Or.inr (Or.inl ⟨hload, rfl⟩))
  | temporaryBan hphase =>
    obtain ⟨hpresent, hload, hbanWait, hlong⟩ := h.phase_of hphase
    -- The time is never zero: the supervisor has stored it itself.
    have hmax : max s.banWait 1 = s.banWait := by omega
    rw [hmax]
    exact h.wait hphase hpresent hlong (Or.inr (Or.inr ⟨hload, hbanWait⟩))
  | preserveCredentials hphase =>
    obtain ⟨hpresent, hload, -⟩ := h.phase_of hphase
    exact h.pending hphase hpresent.1.le rfl (by simp) (by simp) hload
  | resetCredentials hphase =>
    obtain ⟨hpresent, hload, -⟩ := h.phase_of hphase
    exact h.pending hphase hpresent.1.le rfl (by simp) (by simp) hload
  | early hphase hearly => exact h.early hphase hearly
  | elapsed hphase hover => exact h.elapsed hphase hover
  | woken hphase =>
    have hwaiting := h.phase_of hphase
    exact h.silent (by simp [hphase]) (by simp [hphase, Phase.running?]) hwaiting
  | stillEarly hphase hearly =>
    have hwaiting := h.phase_of hphase
    exact h.silent (by simp [hphase]) (by simp [hphase, Phase.running?]) hwaiting
  | late hphase hover =>
    obtain ⟨hwaiting, -⟩ := h.phase_of hphase
    have hbegun := hwaiting.begun
    refine h.silent (by simp [hphase]) (by simp [hphase, Phase.running?]) ⟨hwaiting, Or.inl ?_⟩
    omega
  | blocked hphase hslept =>
    obtain ⟨hwaiting, hsleeps⟩ := h.phase_of hphase
    refine h.silent (by simp [hphase]) (by simp [hphase, Phase.running?])
      ⟨hwaiting, Or.inr fun time hmem => ?_⟩
    exact (Nat.add_le_add_right (hsleeps time hmem) _).trans hslept

theorem ok_initial : Ok .initial where
  allowed := always_nil
  recorded := ⟨fun g => ⟨.restart, rfl, Or.inl rfl, by simp [outcomes, System.initial, upperBounds]⟩,
    fun g => rfl, by simp [System.initial], by simp [System.initial]⟩
  bounded := by simp [System.initial]
  waited := by simp [System.initial]
  spaced := by simp [Spaced, System.initial]
  halted := by simp [System.initial]
  active := by simp [System.initial]
  activated := by simp [System.initial]
  phase := ⟨by simp [System.initial], by simp [Spaced, System.initial]⟩

theorem exists_stored (h : lastBan g log ≠ none) : ∃ expire, .stored g expire ∈ log := by
  obtain ⟨expire, hlast⟩ := Option.ne_none_iff_exists'.mp h
  obtain ⟨e, hmem, hban⟩ := List.mem_filterMap.mp (List.mem_of_getLast? hlast)
  cases e with
  | stored g' expire' =>
    simp only [Event.ban?] at hban
    split at hban
    · rename_i hg
      exact ⟨expire', hg ▸ hmem⟩
    · cases hban
  | _ => cases hban

/-- A step that writes nothing down. -/
theorem Ok.same (h : Ok s) (houtcome : s'.outcome = s.outcome) (hseconds : s'.seconds = s.seconds)
    (hraising : s'.raising = s.raising) (hcreated : s'.created = s.created)
    (hbanWait : s'.banWait = s.banWait) (hclock : s.clock ≤ s'.clock) (hphase : s'.phase = s.phase)
    (hactive : ∀ g, s'.active = some g → s.active = some g) (hlog : s'.log = s.log) : Ok s' := by
  have happend : s'.log = s.log ++ [] := by rw [hlog, List.append_nil]
  refine h.append ?_ hcreated hbanWait hclock hphase hactive happend (by simp) (hlog ▸ h.allowed)
  exact h.recorded.append houtcome hseconds hraising happend (by simp)

/-- Every step of every party keeps the invariant. -/
theorem Ok.step (h : Ok s) (hstep : Step s s') : Ok s' := by
  cases hstep with
  | supervisor hmove => exact h.supervisor hmove
  | clock later hle => exact h.same rfl rfl rfl rfl rfl hle rfl (fun _ => id) rfl
  | store expire hg =>
    refine h.append (h.recorded.store expire) rfl rfl le_rfl rfl (fun _ => id) rfl ?_ ?_
    · simpa [Event.ours, Event.client] using hg
    · exact always_append_singleton.mpr ⟨h.allowed, trivial⟩
  | raiseBan hg =>
    have hban := h.recorded.raising _ hg
    refine h.append (h.recorded.fetchMax List.erase_subset fun _ => hban) rfl rfl le_rfl rfl
      (fun _ => id) rfl ?_ ?_
    · obtain ⟨expire, hmem⟩ := exists_stored hban
      simpa [Event.ours, Event.client] using h.bounded _ hmem
    · exact always_append_singleton.mpr ⟨h.allowed, trivial⟩
  | @raise g event exit hg hexit hother =>
    refine h.append (h.recorded.fetchMax (fun _ => id) ?_) rfl rfl le_rfl rfl (fun _ => id) rfl ?_ ?_
    · -- Only a ban raises this outcome.
      rintro rfl
      cases event with
      | temporaryBan expire => exact absurd rfl (hother expire)
      | loggedOut raw reason => cases raw <;> cases hl : reason.loggedOut <;> simp [SdkEvent.exit?, hl] at hexit
      | connectFailure reason => simp [SdkEvent.exit?] at hexit
      | clientOutdated => cases hexit
      | streamReplaced => cases hexit
    · simpa [Event.ours, Event.client] using hg
    · exact always_append_singleton.mpr ⟨h.allowed, trivial⟩
  | maintenance hstep => exact h.same rfl rfl rfl rfl rfl le_rfl rfl (fun _ => id) rfl
  | clearClient g =>
    refine h.same rfl rfl rfl rfl rfl le_rfl rfl (fun g' hg' => ?_) rfl
    simp only [System.clearIf] at hg'
    split at hg'
    · cases hg'
    · exact hg'

theorem Reachable.ok (h : Reachable s) : Ok s := by
  induction h with
  | refl => exact ok_initial
  | tail _ hstep ih => exact ih.step hstep

/-! ### The reset -/

/-- What maintenance has been asked for: a request of the supervisor that was taken is in the log
before any restart, one that was rejected after the reboot was decided. -/
structure Delegated (s : System) : Prop where
  ok : s.maintenance.Ok
  closed : .restart ∈ s.maintenance.log → .beginReboot true ∈ s.maintenance.log
  asked : ∀ g answer, .reset g answer ∈ s.log →
    ∃ before after, s.maintenance.log = before ++ .request .reset answer :: after ∧
      (answer = .rejected ∧ .beginReboot true ∈ before ∨ answer ≠ .rejected ∧ .restart ∉ before)

theorem eq_restart_of_mem_next {active succeeded : Bool} {state : MaintenanceState} {task : Task}
    (h : .restart ∈ (task.next active succeeded state).2.2) : task = .restart := by
  cases task with
  | restart => rfl
  | readClient initial | logout l | erase l erasure | beginReboot l =>
    simp only [Task.next] at h
    split at h <;> simp at h
  | stopClient initial => cases initial <;> simp [Task.next] at h
  | loop l =>
    simp only [Task.next] at h
    split at h
    · split at h <;> simp at h
    · simp at h
  | _ => simp [Task.next] at h

/-- Maintenance restarts the device after it has closed the window. -/
theorem closed_of_step {m m' : WhatsappEsp32.System} (hok : m.Ok) (hstep : m.Step m') :
    ∃ es, m'.log = m.log ++ es ∧ (.restart ∈ es → .beginReboot true ∈ m.log) := by
  cases hstep with
  | request action => exact ⟨_, rfl, by simp⟩
  | client active => exact ⟨[], (List.append_nil _).symm, by simp⟩
  | task before after task htasks succeeded =>
    refine ⟨_, rfl, fun hmem => ?_⟩
    obtain ⟨-, hnil, -⟩ | ⟨highest, task', hrunning⟩ := hok.phase
    · simp [hnil] at htasks
    · have htask : task ∈ [task'] := by
        rw [← hrunning.tasks, htasks]
        simp
      cases List.mem_singleton.mp htask
      rw [hrunning.closed, eq_restart_of_mem_next hmem]
      rfl

/-- Requests that are answered stay so. -/
theorem Delegated.maintenance (h : Delegated s) (hstep : s.maintenance.Step s'.maintenance)
    (hreset : ∀ g answer, .reset g answer ∈ s'.log → .reset g answer ∈ s.log) : Delegated s' := by
  obtain ⟨es, hlog, hrestart⟩ := closed_of_step h.ok hstep
  refine ⟨h.ok.step hstep, ?_, ?_⟩
  · rw [hlog]
    intro hmem
    exact List.mem_append_left _ ((List.mem_append.mp hmem).elim h.closed hrestart)
  · intro g answer hmem
    obtain ⟨before, after, heq, hwhy⟩ := h.asked g answer (hreset g answer hmem)
    exact ⟨before, after ++ es, by rw [hlog, heq]; simp, hwhy⟩

theorem Delegated.same (h : Delegated s) (hm : s'.maintenance = s.maintenance)
    (hreset : ∀ g answer, .reset g answer ∈ s'.log → .reset g answer ∈ s.log) : Delegated s' := by
  refine ⟨hm ▸ h.ok, hm ▸ h.closed, fun g answer hmem => ?_⟩
  rw [hm]
  exact h.asked g answer (hreset g answer hmem)

theorem request_eq_rejected_iff {state : MaintenanceState} {action : MaintenanceAction} :
    (MaintenanceCoordinator.request state action).1 = .rejected ↔ state.accepting = false := by
  unfold MaintenanceCoordinator.request
  cases state.accepting <;> cases state.running <;> simp

/-- The window is closed exactly when the reboot has been decided. -/
theorem closed_iff {m : WhatsappEsp32.System} (h : m.Ok) :
    m.state.accepting = false ↔ .beginReboot true ∈ m.log := by
  rcases h.phase with ⟨hstate, -, hlog⟩ | ⟨highest, task, hrunning⟩
  · simp [hstate, hlog, MaintenanceCoordinator.new]
  · rw [hrunning.closed, hrunning.accepting, Bool.not_eq_false']

theorem Delegated.reset (h : Delegated s) :
    Delegated ({ s with maintenance := s.maintenance.request .reset }.goto .pending
      [.reset g (MaintenanceCoordinator.request s.maintenance.state .reset).1]) := by
  have hstep : s.maintenance.Step (s.maintenance.request .reset) := .request _ _
  have hold : Delegated { s with maintenance := s.maintenance.request .reset } :=
    h.maintenance hstep fun _ _ => id
  refine ⟨hold.ok, hold.closed, fun g' answer hmem => ?_⟩
  rcases List.mem_append.mp hmem with hmem | hmem
  · exact hold.asked g' answer hmem
  · cases List.mem_singleton.mp hmem
    refine ⟨s.maintenance.log, [], rfl, ?_⟩
    rw [ne_eq, request_eq_rejected_iff, closed_iff h.ok]
    by_cases hclosed : .beginReboot true ∈ s.maintenance.log
    · exact Or.inl ⟨hclosed, hclosed⟩
    · exact Or.inr ⟨hclosed, mt h.closed hclosed⟩

theorem Delegated.step (h : Delegated s) (hstep : Step s s') : Delegated s' := by
  cases hstep with
  | supervisor hmove =>
    cases hmove with
    | resetCredentials hphase => exact h.reset
    | _ => exact h.same rfl fun g answer hmem => by simpa [System.goto, System.clearIf] using hmem
  | maintenance hstep => exact h.maintenance hstep fun _ _ => id
  | _ => exact h.same rfl fun g answer hmem => by simpa [System.fetchMax, System.clearIf] using hmem

theorem Reachable.delegated (h : Reachable s) : Delegated s := by
  induction h with
  | refl => exact ⟨System.ok_initial, by simp [System.initial, WhatsappEsp32.System.initial],
      by simp [System.initial]⟩
  | tail _ hstep ih => exact ih.step hstep

/-- What is before the restart. -/
theorem mem_of_before_restart {α : Type} {x y : α} {before after pre post : List α} (hxy : x ≠ y)
    (h : before ++ x :: after = pre ++ y :: post) (hy : y ∉ before) : x ∈ pre := by
  rcases List.append_eq_append_iff.mp h with ⟨mid, rfl, hmid⟩ | ⟨mid, rfl, hmid⟩
  · cases mid with
    | nil => exact absurd (List.cons.inj hmid).1 hxy
    | cons z mid =>
      obtain ⟨rfl, -⟩ := List.cons.inj hmid
      simp
  · cases mid with
    | nil => exact absurd (List.cons.inj hmid).1.symm hxy
    | cons z mid =>
      obtain ⟨rfl, -⟩ := List.cons.inj hmid
      simp at hy

/-- The active client is running. -/
theorem Ok.live (h : Ok s) (hactive : s.active = some g) :
    .activate g ∈ s.log ∧ .deactivate g ∉ s.log := by
  have hpresent := h.phase
  have hrunning := h.active g hactive
  cases hphase : s.phase <;> simp only [hphase, Phase.running?] at hrunning <;> cases hrunning
  all_goals
    rw [hphase] at hpresent
    exact ⟨hpresent.2, fun hgone => absurd (hpresent.1.2 _ hgone rfl) (by simp [Event.rank])⟩

/-- **The supervisor does what the server has asked for.**  In every run, whatever the clients are
told and when, however often the sleeps fail and whatever maintenance does meanwhile: what happens
is allowed; the active client is one that has not been cleared; and once the supervisor has asked for
the reset there is one maintenance task, which has applied it by the time it restarts the device,
unless the reboot had been decided before. -/
theorem restarts_allowed (h : Reachable s) :
    Always Allowed s.log ∧ (∀ g, s.active = some g → .activate g ∈ s.log ∧ .deactivate g ∉ s.log) ∧
    ∀ g answer, .reset g answer ∈ s.log → (∃ task, s.maintenance.tasks = [task]) ∧
      (answer = .rejected → .beginReboot true ∈ s.maintenance.log) ∧
      ∀ pre post, answer ≠ .rejected → s.maintenance.log = pre ++ .restart :: post →
        lastApplied pre = .reset := by
  have hdelegated := h.delegated
  refine ⟨h.ok.allowed, fun g hactive => h.ok.live hactive, fun g answer hmem => ?_⟩
  obtain ⟨before, after, heq, hwhy⟩ := hdelegated.asked g answer hmem
  refine ⟨?_, fun hrejected => ?_, fun pre post hne hlog => ?_⟩
  · rcases hdelegated.ok.phase with ⟨-, -, hnil⟩ | ⟨highest, task, hrunning⟩
    · rw [hnil] at heq
      simp at heq
    · exact ⟨task, hrunning.tasks⟩
  · rw [heq]
    exact List.mem_append_left _ (hwhy.resolve_right fun hne => hne.1 hrejected).2
  · have hpast := mem_of_before_restart (by simp) (heq.symm.trans hlog)
      (hwhy.resolve_left fun hrejected => hne hrejected.1).2
    have hgreatest : IsGreatest _ _ := hdelegated.ok.allowed pre .restart post hlog
    have hle : MaintenanceAction.reset ≤ lastApplied pre := by
      apply hgreatest.2
      refine List.mem_filterMap.mpr ⟨_, hpast, ?_⟩
      cases answer <;> first | rfl | exact absurd rfl hne
    cases hlast : lastApplied pre with
    | reset => rfl
    | reboot | clearSessions =>
      rw [hlast] at hle
      exact absurd hle (by decide)

end

/-- The server bans the first client for 55 seconds; the second one comes a minute later, although
no timer could be armed. -/
theorem banned_client_waits : ∃ s, Reachable s ∧ s.active = none ∧
    s.log = [.start 0 0, .activate 0, .stored 0 55, .raised 0 .temporaryBan, .deactivate 0,
      .load 0 .temporaryBan, .status 0 false, .banWait 0 60, .wait 0 60 0, .sleep 0 0,
      .start 1 (fromSecs 60)] ∧ Always Allowed s.log := by
  have hrunning : Reachable _ := ((Relation.ReflTransGen.single (.supervisor (.start rfl))).tail
    (.supervisor (.built rfl))).tail (.supervisor (.activate rfl))
  have hbanned := (hrunning.tail (.store 55 Nat.one_pos)).tail (.raiseBan (List.mem_singleton.mpr rfl))
  have hstored := ((((hbanned.tail (.supervisor (.stopped rfl))).tail
    (.supervisor (.deactivate rfl))).tail (.supervisor (.load rfl))).tail
    (.supervisor (.status rfl))).tail (.supervisor (.store rfl))
  have hwaiting := (((hstored.tail (.supervisor (.temporaryBan rfl))).tail
    (.supervisor (.early rfl (by decide)))).tail (.supervisor (.woken rfl))).tail
    (.supervisor (.stillEarly rfl (by decide)))
  have hstarted := (((hwaiting.tail (.clock (fromSecs 60) (Nat.zero_le _))).tail
    (.supervisor (.blocked rfl (by decide)))).tail (.supervisor (.elapsed rfl (by decide)))).tail
    (.supervisor (.start rfl))
  exact ⟨_, hstarted, rfl, rfl, (restarts_allowed hstarted).1⟩

end ClientLoop

end WhatsappEsp32
