import WhatsappEsp32.Admin.PairCode
import WhatsappEsp32.Supervisor.ClientLoop

/-!
# The events of the bot

The closure given to `on_event_for` shows on the dashboard what the client says, and answers every
`🦀ping` with a reaction, a reply and an edit of the reply.  There is one future for each event; they
run on the executor of the supervisor, so each goes on only while the supervisor waits, and is
undisturbed from one await to the next.  A client that was superseded can still have events, and a
batch of messages can outlive its client.

* `BotEvent`, `Handler`: an event, and where its future is;
* `first`, `drain`: what a future does in one go;
* `System`, `Step`: the futures, the supervisor of `ClientLoop`, and the other users of the status
  and of the memory gate;
* `Allowed`: what must have happened before an event; `events_allowed`: it has, in every run, and the
  dashboard shows the account of the client that is running.
-/

namespace WhatsappEsp32

open Trace

/-- The supervisor waits here, and other futures run. -/
def ClientLoop.Phase.awaits : ClientLoop.Phase → Bool
  | .build _ | .run _ | .sleep _ _ _ | .block _ _ _ _ | .pending => true
  | _ => false

namespace BotEvents

/-! ### The futures -/

/-- A message as the bot sees it. -/
abbrev Inbound := MessageLogEntry

/-- `PING_TRIGGER`. -/
def pingTrigger : String := "🦀ping"

/-- `PONG_TEXT`. -/
def pongText : String := "🏓 Pong!"

/-- `REACTION_EMOJI`. -/
def reactionEmoji : String := "🏓"

/-- The messages that the bot answers. -/
def isPing (inbound : Inbound) : Bool := inbound.text = some pingTrigger

/-- The events that the closure is subscribed to. -/
inductive BotEvent
  | pairingQrCode (code : String)
  | pairingQrCodesExhausted
  | connected (pn lid : Option String)
  | disconnected
  | loggedOut
  | messages (batch : List Inbound)
  /-- Those that are only logged. -/
  | other

/-- What is sent in answer to a ping. -/
inductive Send
  | reaction
  | reply
  /-- The edit shows how long the reply took. -/
  | edit (messageId duration : String)
  deriving DecidableEq

/-- The text of a send. -/
def Send.text : Send → String
  | .reaction => reactionEmoji
  | .reply => pongText
  | .edit _ duration => pongText ++ "\n`" ++ duration ++ "`"

/-- The reaction comes first, the edit last. -/
def Send.stage : Send → ℕ
  | .reaction => 0
  | .reply => 1
  | .edit _ _ => 2

/-- Where the future of an event of client `g` is; `rest` is what it still has to do of a batch. -/
inductive Handler
  | absent
  | arrived (g : ℕ) (event : BotEvent)
  /-- `auto_scan_qr`. -/
  | scanning
  /-- `gate.acquire()`. -/
  | acquiring (g : ℕ) (rest : List Inbound)
  /-- Before the look at the active client, with the permit. -/
  | admitted (g : ℕ) (rest : List Inbound)
  | sending (g : ℕ) (rest : List Inbound) (send : Send)
  | done

/-- Who holds the memory gate. -/
inductive Owner
  | handler (k : ℕ)
  /-- An HTTP request, or a send from the dashboard. -/
  | other
  deriving DecidableEq

/-- What happens; `k` is the future, `g` its client, and `i` how much of the batch comes after the
ping. -/
inductive Event
  /-- The client of the future is active. -/
  | began (k g : ℕ)
  | status (k g : ℕ) (op : StatusOp)
  | acquire (owner : Owner)
  | release (owner : Owner)
  /-- The client is active, with the permit in hand. -/
  | cleared (k g : ℕ)
  | send (k g i : ℕ) (send : Send)
  | sent (k i : ℕ) (send : Send) (outcome : Except String String)
  | supervisor (event : ClientLoop.Event)
  /-- The admin server, or the maintenance task. -/
  | other (op : StatusOp)

/-- A batch until the next ping. -/
def drain (gated : Bool) (k g : ℕ) : List Inbound → List Event × Handler
  | [] => ([], .done)
  | inbound :: rest =>
    if isPing inbound then
      if gated then ([.status k g (.recordMessage inbound)], .acquiring g rest)
      else ([.status k g (.recordMessage inbound), .send k g rest.length .reaction],
        .sending g rest .reaction)
    else (.status k g (.recordMessage inbound) :: (drain gated k g rest).1, (drain gated k g rest).2)

/-- What the future of an event of the active client does until its first await. -/
def first (gated scan : Bool) (k g : ℕ) : BotEvent → List Event × Handler
  | .pairingQrCode code => ([.status k g (.setQrCode code)], if scan then .scanning else .done)
  | .pairingQrCodesExhausted => ([.status k g .clearQrCode], .done)
  | .connected pn lid => ([.status k g (.setConnected pn lid)], .done)
  | .disconnected => ([.status k g .setDisconnected], .done)
  | .loggedOut => ([.status k g .setLoggedOut], .done)
  | .messages batch => drain gated k g batch
  | .other => ([], .done)

/-- The permit, if there is a gate. -/
def releasing (gated : Bool) (k : ℕ) : List Event := if gated then [.release (.handler k)] else []

/-- The answer to a ping is over, and so is the permit; the batch goes on. -/
def leave (gated : Bool) (k g : ℕ) (rest : List Inbound) : List Event × Handler :=
  (releasing gated k ++ (drain gated k g rest).1, (drain gated k g rest).2)

/-! ### The system -/

/-- The supervisor loop, the status on the dashboard, the memory gate and the handlers. -/
structure System where
  loop : ClientLoop.System
  status : DeviceStatus
  gate : Option Owner
  /-- Whether a client has had its QR code scanned. -/
  scanned : ℕ → Bool
  handlers : ℕ → Handler
  log : List Event

namespace System

/-- The start of the firmware: no client, no handler, and the gate free. -/
def initial : System := ⟨.initial, .new, none, fun _ => false, fun _ => .absent, []⟩

/-- What an event makes of the status. -/
def shown (now : ℕ) (status : DeviceStatus) : Event → DeviceStatus
  | .status _ _ op | .other op => op.run status now
  | .supervisor (.status _ loggedOut) =>
    if loggedOut then status.setLoggedOut else status.setDisconnected
  | _ => status

/-- Who holds the gate after an event. -/
def hold (gate : Option Owner) : Event → Option Owner
  | .acquire owner => some owner
  | .release _ => none
  | _ => gate

/-- What has happened is seen and written down. -/
def emit (s : System) (es : List Event) : System :=
  { s with
    status := es.foldl (shown s.loop.clock) s.status
    gate := es.foldl hold s.gate
    log := s.log ++ es }

/-- `scanned.swap(true)`, for a QR code where there is a mock server. -/
def scan (s : System) (autopair : Bool) (g : ℕ) : BotEvent → ℕ → Bool
  | .pairingQrCode _ => if autopair then Function.update s.scanned g true else s.scanned
  | _ => s.scanned

/-- The future `k` has got as far as its next await. -/
def goto (s : System) (k : ℕ) (segment : List Event × Handler) : System :=
  { s.emit segment.1 with handlers := Function.update s.handlers k segment.2 }

end System

/-- The next step of the future `k`. -/
inductive Move (gated autopair : Bool) (s : System) (k : ℕ) : System → Prop
  /-- A superseded client. -/
  | stale {g : ℕ} {event : BotEvent} (h : s.handlers k = .arrived g event)
      (hactive : s.loop.active ≠ some g) : Move gated autopair s k (s.goto k ([], .done))
  | poll {g : ℕ} {event : BotEvent} (h : s.handlers k = .arrived g event)
      (hactive : s.loop.active = some g) :
      Move gated autopair s k ({ s with scanned := s.scan autopair g event }.goto k
        (.began k g :: (first gated (autopair && !s.scanned g) k g event).1,
          (first gated (autopair && !s.scanned g) k g event).2))
  | scan (h : s.handlers k = .scanning) : Move gated autopair s k (s.goto k ([], .done))
  | acquire {g : ℕ} {rest : List Inbound} (h : s.handlers k = .acquiring g rest)
      (hgate : s.gate = none) :
      Move gated autopair s k (s.goto k ([.acquire (.handler k)], .admitted g rest))
  | clear {g : ℕ} {rest : List Inbound} (h : s.handlers k = .admitted g rest)
      (hactive : s.loop.active = some g) :
      Move gated autopair s k (s.goto k
        ([.cleared k g, .send k g rest.length .reaction], .sending g rest .reaction))
  | superseded {g : ℕ} {rest : List Inbound} (h : s.handlers k = .admitted g rest)
      (hactive : s.loop.active ≠ some g) : Move gated autopair s k (s.goto k (leave gated k g rest))
  /-- The reply follows also on a reaction that failed. -/
  | reacted {g : ℕ} {rest : List Inbound} (outcome : Except String String)
      (h : s.handlers k = .sending g rest .reaction) :
      Move gated autopair s k (s.goto k
        ([.sent k rest.length .reaction outcome, .send k g rest.length .reply],
          .sending g rest .reply))
  | replied {g : ℕ} {rest : List Inbound} (messageId duration : String)
      (h : s.handlers k = .sending g rest .reply) :
      Move gated autopair s k (s.goto k
        ([.sent k rest.length .reply (.ok messageId),
          .send k g rest.length (.edit messageId duration)],
          .sending g rest (.edit messageId duration)))
  | replyFailed {g : ℕ} {rest : List Inbound} (error : String)
      (h : s.handlers k = .sending g rest .reply) :
      Move gated autopair s k (s.goto k
        (.sent k rest.length .reply (.error error) :: (leave gated k g rest).1,
          (leave gated k g rest).2))
  | edited {g : ℕ} {rest : List Inbound} {messageId duration : String}
      (outcome : Except String String)
      (h : s.handlers k = .sending g rest (.edit messageId duration)) :
      Move gated autopair s k (s.goto k
        (.sent k rest.length (.edit messageId duration) outcome :: (leave gated k g rest).1,
          (leave gated k g rest).2))

/-- What the admin server and maintenance do to the status. -/
def Foreign : StatusOp → Prop
  | .beginPairCode | .completePairCode _ _ _ | .failPairCode _ _ | .setLoggedOut => True
  | _ => False

/-- A step of a handler, the arrival of an event, or a step of the supervisor loop. -/
inductive Step (gated autopair : Bool) (s : System) : System → Prop
  | handler {k : ℕ} {s' : System} (hawaits : s.loop.phase.awaits = true)
      (h : Move gated autopair s k s') : Step gated autopair s s'
  | arrive {k g : ℕ} (event : BotEvent) (h : s.handlers k = .absent) (hg : g < s.loop.created) :
      Step gated autopair s (s.goto k ([], .arrived g event))
  | loop {loop : ClientLoop.System} {es : List ClientLoop.Event}
      (h : ClientLoop.Step s.loop loop) (hlog : loop.log = s.loop.log ++ es) :
      Step gated autopair s { s.emit (es.map .supervisor) with loop }
  | otherAcquire (h : s.gate = none) : Step gated autopair s (s.emit [.acquire .other])
  | otherRelease (h : s.gate = some .other) : Step gated autopair s (s.emit [.release .other])
  | other (op : StatusOp) (h : Foreign op) : Step gated autopair s (s.emit [.other op])

/-- The systems that some interleaving leads to. -/
def Reachable (gated autopair : Bool) (s : System) : Prop :=
  Relation.ReflTransGen (Step gated autopair) .initial s

/-! ### What may happen when -/

/-- The supervisor runs client `g`. -/
def Live (g : ℕ) (log : List Event) : Prop :=
  .supervisor (.activate g) ∈ log ∧ .supervisor (.deactivate g) ∉ log

/-- Who holds the gate after what has happened. -/
def held (log : List Event) : Option Owner := log.foldl System.hold none

/-- What a send follows on. -/
def Follows (gated : Bool) (past : List Event) (k g i : ℕ) : Send → Prop
  | .reaction => gated = true → Live g past
  | .reply => ∃ outcome, .sent k i .reaction outcome ∈ past
  | .edit messageId _ => .sent k i .reply (.ok messageId) ∈ past

/-- What must have happened before an event.  The futures of a client begin, and change the status,
while it is running; only the rest of a batch is recorded later.  A ping is answered in the order
reaction, reply, edit, each of them once, the edit only to a reply that was sent; with a gate only
with the permit in hand, and the answer begins only while the client is running. -/
def Allowed (gated : Bool) (past : List Event) : Event → Prop
  | .began k g => Live g past ∧ ∀ g', .began k g' ∉ past
  | .status k g op => .began k g ∈ past ∧ ((∀ entry, op ≠ .recordMessage entry) → Live g past)
  | .acquire _ => held past = none
  | .release owner => held past = some owner
  | .cleared _ g => Live g past
  | .send k g i send => .began k g ∈ past ∧
    (∀ g' send', .send k g' i send' ∈ past → send'.stage < send.stage) ∧
    (gated = true → held past = some (.handler k)) ∧ Follows gated past k g i send
  | .sent k i send _ => (∃ g, .send k g i send ∈ past) ∧
    ∀ send' outcome, .sent k i send' outcome ∈ past → send'.stage < send.stage
  | .supervisor _ | .other _ => True

/-! ### The invariant -/

/-- The future that an event is of. -/
def Event.about? : Event → Option ℕ
  | .began k _ | .status k _ _ | .cleared k _ | .send k _ _ _ | .sent k _ _ _ => some k
  | .acquire _ | .release _ | .supervisor _ | .other _ => none

/-- What the future `k` has sent was for pings with at least `n` messages after them. -/
structure Ahead (k n : ℕ) (log : List Event) : Prop where
  send : ∀ g i send, .send k g i send ∈ log → n ≤ i
  sent : ∀ i send outcome, .sent k i send outcome ∈ log → n ≤ i

/-- What the log says about where the future `k` is. -/
def HandlerOk (gated : Bool) (log : List Event) (gate : Option Owner) (k : ℕ) : Handler → Prop
  | .absent | .arrived _ _ => (∀ g, .began k g ∉ log) ∧ ∀ n, Ahead k n log
  | .scanning | .done => True
  | .acquiring g rest => .began k g ∈ log ∧ Ahead k (rest.length + 1) log
  | .admitted g rest =>
    .began k g ∈ log ∧ Ahead k (rest.length + 1) log ∧ gate = some (.handler k)
  | .sending g rest send => .began k g ∈ log ∧ Ahead k rest.length log ∧
    (gated = true → gate = some (.handler k)) ∧ .send k g rest.length send ∈ log ∧
    (∀ g' send', .send k g' rest.length send' ∈ log → send'.stage ≤ send.stage) ∧
    ∀ send' outcome, .sent k rest.length send' outcome ∈ log → send'.stage < send.stage

end BotEvents

/-- The client that the dashboard may show as connected. -/
def ClientLoop.Phase.shows? : ClientLoop.Phase → Option ℕ
  | .run g | .deactivate g | .load g | .status g _ => some g
  | _ => none

namespace BotEvents

/-- The dashboard shows the account of a client that said it was connected and has not ended. -/
def Shows (s : System) : Prop :=
  s.status.connected = true → ∃ k g, s.loop.phase.shows? = some g ∧
    .status k g (.setConnected s.status.pn s.status.lid) ∈ s.log

/-- The invariant: the loop is a reachable one, the log is lawful, and gate, handlers and status are
as it says. -/
structure Ok (gated : Bool) (s : System) : Prop where
  loop : ClientLoop.Reachable s.loop
  mirrored : ∀ e, .supervisor e ∈ s.log ↔ e ∈ s.loop.log
  allowed : Always (Allowed gated) s.log
  gate : s.gate = held s.log
  handlers : ∀ k, HandlerOk gated s.log s.gate k (s.handlers k)
  shows : Shows s

/-! ### One future, seen from the others -/

section

variable {gated : Bool} {log es : List Event} {gate gate' : Option Owner} {k n : ℕ}
  {handler : Handler}

theorem Ahead.append (h : Ahead k n log) (hes : ∀ e ∈ es, e.about? ≠ some k) :
    Ahead k n (log ++ es) := by
  constructor
  · intro g i send hmem
    refine h.send g i send ((List.mem_append.mp hmem).resolve_right fun hmem => ?_)
    exact hes _ hmem rfl
  · intro i send outcome hmem
    refine h.sent i send outcome ((List.mem_append.mp hmem).resolve_right fun hmem => ?_)
    exact hes _ hmem rfl

theorem Ahead.mono {m : ℕ} (h : Ahead k n log) (hle : m ≤ n) : Ahead k m log :=
  ⟨fun g i send hmem => hle.trans (h.send g i send hmem),
    fun i send outcome hmem => hle.trans (h.sent i send outcome hmem)⟩

/-- What the others do does not change where a future is. -/
theorem HandlerOk.append (h : HandlerOk gated log gate k handler)
    (hes : ∀ e ∈ es, e.about? ≠ some k)
    (hgate : gate = some (.handler k) → gate' = some (.handler k)) :
    HandlerOk gated (log ++ es) gate' k handler := by
  have hold : ∀ {e : Event}, e.about? = some k → e ∈ log ++ es → e ∈ log := fun habout hmem =>
    (List.mem_append.mp hmem).resolve_right fun hmem => hes _ hmem habout
  cases handler with
  | absent => exact ⟨fun g hmem => h.1 g (hold rfl hmem), fun n => (h.2 n).append hes⟩
  | arrived g event => exact ⟨fun g hmem => h.1 g (hold rfl hmem), fun n => (h.2 n).append hes⟩
  | scanning => trivial
  | done => trivial
  | acquiring g rest => exact ⟨List.mem_append_left _ h.1, h.2.append hes⟩
  | admitted g rest => exact ⟨List.mem_append_left _ h.1, h.2.1.append hes, hgate h.2.2⟩
  | sending g rest send =>
    obtain ⟨hbegan, hahead, hpermit, hsend, hsends, hsents⟩ := h
    refine ⟨List.mem_append_left _ hbegan, hahead.append hes, fun hgated => hgate (hpermit hgated),
      List.mem_append_left _ hsend, ?_, ?_⟩
    · exact fun g' send' hmem => hsends g' send' (hold rfl hmem)
    · exact fun send' outcome hmem => hsents send' outcome (hold rfl hmem)

end

/-! ### A batch -/

section

variable {gated : Bool} {log : List Event} {gate : Option Owner} {k g : ℕ} {batch : List Inbound}

theorem held_append (log es : List Event) : held (log ++ es) = es.foldl System.hold (held log) :=
  List.foldl_append

/-- A batch is recorded, and the reaction to a ping begins. -/
theorem mem_drain {e : Event} (h : e ∈ (drain gated k g batch).1) :
    (∃ entry, e = .status k g (.recordMessage entry)) ∨ ∃ i, e = .send k g i .reaction := by
  induction batch with
  | nil => cases h
  | cons inbound rest ih =>
    simp only [drain] at h
    split at h
    · split at h
      · cases List.mem_singleton.mp h
        exact Or.inl ⟨inbound, rfl⟩
      · rcases List.mem_pair.mp h with rfl | rfl
        · exact Or.inl ⟨inbound, rfl⟩
        · exact Or.inr ⟨rest.length, rfl⟩
    · rcases List.mem_cons.mp h with rfl | h
      · exact Or.inl ⟨inbound, rfl⟩
      · exact ih h

/-- A batch does not touch the gate. -/
theorem foldl_hold {es : List Event} (h : ∀ e ∈ es, System.hold gate e = gate) :
    es.foldl System.hold gate = gate := by
  induction es with
  | nil => rfl
  | cons e es ih =>
    rw [List.foldl_cons, h e List.mem_cons_self]
    exact ih fun e he => h e (List.mem_cons_of_mem _ he)

theorem foldl_hold_drain : (drain gated k g batch).1.foldl System.hold gate = gate := by
  apply foldl_hold
  intro e he
  rcases mem_drain he with ⟨entry, rfl⟩ | ⟨i, rfl⟩ <;> rfl

/-- The message is recorded whether or not the client is still running. -/
theorem allowed_record (hbegan : .began k g ∈ log) (entry : Inbound) :
    Allowed gated log (.status k g (.recordMessage entry)) :=
  ⟨hbegan, fun hne => absurd rfl (hne entry)⟩

theorem Ahead.record (h : Ahead k batch.length log) (op : StatusOp) :
    Ahead k batch.length (log ++ [.status k g op]) :=
  ⟨fun g i send hmem => h.send g i send (by simpa using hmem),
    fun i send outcome hmem => h.sent i send outcome (by simpa using hmem)⟩

/-- A reaction is the first thing that is sent for its ping. -/
theorem handlerOk_reaction (hbegan : .began k g ∈ log) (hahead : Ahead k (batch.length + 1) log)
    (hgate : gated = true → gate = some (.handler k)) :
    HandlerOk gated (log ++ [.send k g batch.length .reaction]) gate k
      (.sending g batch .reaction) := by
  have hnew : ∀ {g' i send}, .send k g' i send ∈ log ++ [.send k g batch.length .reaction] →
      batch.length + 1 ≤ i ∨ i = batch.length ∧ send = .reaction := by
    intro g' i send hmem
    rcases List.mem_append.mp hmem with hmem | hmem
    · exact Or.inl (hahead.send g' i send hmem)
    · cases List.mem_singleton.mp hmem
      exact Or.inr ⟨rfl, rfl⟩
  have hsents : ∀ {i send outcome}, .sent k i send outcome ∈ log ++ [.send k g batch.length .reaction] →
      batch.length + 1 ≤ i := by
    intro i send outcome hmem
    exact hahead.sent i send outcome (by simpa using hmem)
  refine ⟨by simp [hbegan], ⟨fun g' i send hmem => ?_, fun i send outcome hmem => ?_⟩, hgate, by simp,
    fun g' send' hmem => ?_, fun send' outcome hmem => ?_⟩
  · rcases hnew hmem with hlt | ⟨rfl, -⟩
    · exact (Nat.le_succ _).trans hlt
    · exact le_rfl
  · exact (Nat.le_succ _).trans (hsents hmem)
  · rcases hnew hmem with hlt | ⟨-, rfl⟩
    · exact absurd hlt (Nat.not_succ_le_self _)
    · exact le_rfl
  · exact absurd (hsents hmem) (Nat.not_succ_le_self _)

theorem allowed_reaction (hbegan : .began k g ∈ log) (hahead : Ahead k (batch.length + 1) log)
    (hpermit : gated = true → held log = some (.handler k) ∧ Live g log) :
    Allowed gated log (.send k g batch.length .reaction) := by
  refine ⟨hbegan, fun g' send' hmem => ?_, fun hgated => (hpermit hgated).1,
    fun hgated => (hpermit hgated).2⟩
  exact absurd (hahead.send g' _ send' hmem) (Nat.not_succ_le_self _)

/-- A batch is recorded in order until the next ping, whose answer comes next. -/
theorem drain_ok (hlog : Always (Allowed gated) log) (hbegan : .began k g ∈ log)
    (hahead : Ahead k batch.length log) :
    Always (Allowed gated) (log ++ (drain gated k g batch).1) ∧
      HandlerOk gated (log ++ (drain gated k g batch).1) gate k (drain gated k g batch).2 := by
  induction batch generalizing log with
  | nil =>
    refine ⟨?_, trivial⟩
    rw [drain, List.append_nil]
    exact hlog
  | cons inbound rest ih =>
    have hrecorded : Always (Allowed gated) (log ++ [.status k g (.recordMessage inbound)]) :=
      always_append_singleton.mpr ⟨hlog, allowed_record hbegan inbound⟩
    have hbegan' : .began k g ∈ log ++ [.status k g (.recordMessage inbound)] :=
      List.mem_append_left _ hbegan
    have hahead' := hahead.record (g := g) (.recordMessage inbound)
    simp only [drain]
    split
    · split
      · exact ⟨hrecorded, hbegan', hahead'⟩
      · rename_i hgated
        rw [List.append_cons]
        refine ⟨always_append_singleton.mpr ⟨hrecorded, ?_⟩, ?_⟩
        · exact allowed_reaction hbegan' hahead' fun htrue => absurd htrue hgated
        · exact handlerOk_reaction hbegan' hahead' fun htrue => absurd htrue hgated
    · rw [List.append_cons]
      exact ih hrecorded hbegan' (hahead'.mono (Nat.le_succ _))

end

/-! ### The status -/

section

variable {s s' : System} {status : DeviceStatus} {now : ℕ} {es : List Event} {e : Event}

/-- Only a connection connects, and nothing else changes the account that is connected. -/
theorem connected_run {op : StatusOp} (h : (op.run status now).connected = true) :
    op = .setConnected (op.run status now).pn (op.run status now).lid ∨
      status.connected = true ∧ (op.run status now).pn = status.pn ∧
        (op.run status now).lid = status.lid := by
  cases op with
  | setConnected pn lid => exact Or.inl rfl
  | setQrCode code => cases h
  | setDisconnected => cases h
  | setLoggedOut => cases h
  | clearQrCode => exact Or.inr ⟨h, rfl, rfl⟩
  | recordMessage entry => exact Or.inr ⟨h, rfl, rfl⟩
  | beginPairCode =>
    have hsame : (status.beginPairCode now).2.connected = status.connected ∧
        (status.beginPairCode now).2.pn = status.pn ∧
        (status.beginPairCode now).2.lid = status.lid := by
      cases hcode : status.pairCode with
      | ready code expiresAt =>
        simp only [DeviceStatus.beginPairCode, hcode]
        split <;> exact ⟨rfl, rfl, rfl⟩
      | _ => simp [DeviceStatus.beginPairCode, hcode]
    exact Or.inr ⟨hsame.1.symm.trans h, hsame.2⟩
  | completePairCode requestId code validFor =>
    simp only [StatusOp.run, DeviceStatus.completePairCode] at h ⊢
    split at h <;> simp_all
  | failPairCode requestId message =>
    simp only [StatusOp.run, DeviceStatus.failPairCode] at h ⊢
    split at h <;> simp_all

theorem connected_shown (hother : ∀ op, e = .other op → Foreign op)
    (h : (System.shown now status e).connected = true) :
    (∃ k g, e = .status k g
      (.setConnected (System.shown now status e).pn (System.shown now status e).lid)) ∨
    (∀ g loggedOut, e ≠ .supervisor (.status g loggedOut)) ∧ status.connected = true ∧
      (System.shown now status e).pn = status.pn ∧ (System.shown now status e).lid = status.lid := by
  cases e with
  | status k g op =>
    rcases connected_run h with hop | hsame
    · exact Or.inl ⟨k, g, congrArg (Event.status k g) hop⟩
    · exact Or.inr ⟨by simp, hsame⟩
  | other op =>
    rcases connected_run h with hop | hsame
    · have hforeign := hother op rfl
      rw [hop] at hforeign
      cases hforeign
    · exact Or.inr ⟨by simp, hsame⟩
  | supervisor event =>
    cases event with
    | status g loggedOut => cases loggedOut <;> cases h
    | _ => exact Or.inr ⟨by simp, h, rfl, rfl⟩
  | _ => exact Or.inr ⟨by simp, h, rfl, rfl⟩

/-- What is shown as connected after some events was connected by one of them, or before. -/
theorem connected_foldl (hother : ∀ op, .other op ∈ es → Foreign op)
    (h : (es.foldl (System.shown now) status).connected = true) :
    (∃ k g, .status k g (.setConnected (es.foldl (System.shown now) status).pn
      (es.foldl (System.shown now) status).lid) ∈ es) ∨
    (∀ g loggedOut, .supervisor (.status g loggedOut) ∉ es) ∧ status.connected = true ∧
      (es.foldl (System.shown now) status).pn = status.pn ∧
      (es.foldl (System.shown now) status).lid = status.lid := by
  induction es generalizing status with
  | nil => exact Or.inr ⟨by simp, h, rfl, rfl⟩
  | cons e es ih =>
    rw [List.foldl_cons] at h ⊢
    rcases ih (fun op hop => hother op (List.mem_cons_of_mem _ hop)) h with ⟨k, g, hmem⟩ | hbefore
    · exact Or.inl ⟨k, g, List.mem_cons_of_mem _ hmem⟩
    · obtain ⟨hquiet, hconnected, hpn, hlid⟩ := hbefore
      rw [hpn, hlid]
      rcases connected_shown (fun op hop => hother op (by simp [hop])) hconnected with
        ⟨k, g, heq⟩ | ⟨hne, hsame⟩
      · refine Or.inl ⟨k, g, ?_⟩
        rw [← heq]
        exact List.mem_cons_self
      · refine Or.inr ⟨fun g loggedOut hmem => ?_, hsame⟩
        rcases List.mem_cons.mp hmem with heq | hmem
        · exact hne g loggedOut heq.symm
        · exact hquiet g loggedOut hmem

/-- The dashboard stays true: new connections are of the client that runs, and an old one is still
there unless the supervisor says otherwise. -/
theorem Shows.append (h : Shows s) (hstatus : s'.status = es.foldl (System.shown now) s.status)
    (hlog : s'.log = s.log ++ es) (hother : ∀ op, .other op ∈ es → Foreign op)
    (hnew : ∀ k g pn lid, .status k g (.setConnected pn lid) ∈ es → s'.loop.phase.shows? = some g)
    (hold : ∀ g, (∀ g' loggedOut, .supervisor (.status g' loggedOut) ∉ es) →
      s.loop.phase.shows? = some g → s'.loop.phase.shows? = some g) : Shows s' := by
  intro hconnected
  rw [hstatus] at hconnected
  rw [hstatus, hlog]
  rcases connected_foldl hother hconnected with ⟨k, g, hmem⟩ | ⟨hquiet, hbefore, hpn, hlid⟩
  · exact ⟨k, g, hnew k g _ _ hmem, List.mem_append_right _ hmem⟩
  · obtain ⟨k, g, hshows, hmem⟩ := h hbefore
    rw [hpn, hlid]
    exact ⟨k, g, hold g hquiet hshows, List.mem_append_left _ hmem⟩

end

/-! ### One future, step by step -/

section

variable {gated autopair : Bool} {s s' : System} {log es : List Event} {gate : Option Owner}
  {k g : ℕ} {rest : List Inbound} {send : Send}

theorem Live.append (h : Live g log) (hes : .supervisor (.deactivate g) ∉ es) : Live g (log ++ es) :=
  ⟨List.mem_append_left _ h.1, fun hmem => (List.mem_append.mp hmem).elim h.2 hes⟩

/-- What an event of the running client does at once. -/
theorem first_ok {scan : Bool} {event : BotEvent} (hlog : Always (Allowed gated) log)
    (hbegan : .began k g ∈ log) (hlive : Live g log) (hahead : ∀ n, Ahead k n log) :
    Always (Allowed gated) (log ++ (first gated scan k g event).1) ∧
      HandlerOk gated (log ++ (first gated scan k g event).1) gate k
        (first gated scan k g event).2 := by
  have hstatus : ∀ op, Always (Allowed gated) (log ++ [.status k g op]) := fun op =>
    always_append_singleton.mpr ⟨hlog, hbegan, fun _ => hlive⟩
  cases event with
  | pairingQrCode code =>
    refine ⟨hstatus _, ?_⟩
    cases scan <;> trivial
  | pairingQrCodesExhausted => exact ⟨hstatus _, trivial⟩
  | connected pn lid => exact ⟨hstatus _, trivial⟩
  | disconnected => exact ⟨hstatus _, trivial⟩
  | loggedOut => exact ⟨hstatus _, trivial⟩
  | messages batch => exact drain_ok hlog hbegan (hahead _)
  | other =>
    refine ⟨?_, trivial⟩
    rw [first, List.append_nil]
    exact hlog

/-- The permit is given back and the batch goes on. -/
theorem leave_ok (hlog : Always (Allowed gated) log) (hbegan : .began k g ∈ log)
    (hahead : Ahead k rest.length log) (hheld : gated = true → held log = some (.handler k)) :
    Always (Allowed gated) (log ++ (leave gated k g rest).1) ∧
      HandlerOk gated (log ++ (leave gated k g rest).1) gate k (leave gated k g rest).2 := by
  cases gated with
  | false => exact drain_ok hlog hbegan hahead
  | true =>
    have hreleased : Always (Allowed true) (log ++ [.release (.handler k)]) :=
      always_append_singleton.mpr ⟨hlog, hheld rfl⟩
    have hahead' : Ahead k rest.length (log ++ [.release (.handler k)]) :=
      hahead.append (by simp [Event.about?])
    rw [leave, releasing, if_pos rfl, ← List.append_assoc]
    exact drain_ok hreleased (List.mem_append_left _ hbegan) hahead'

theorem foldl_hold_leave :
    (leave gated k g rest).1.foldl System.hold gate = if gated then none else gate := by
  cases gated with
  | false => exact foldl_hold_drain
  | true => exact foldl_hold_drain

/-- A send has ended. -/
theorem HandlerOk.sent (h : HandlerOk gated log gate k (.sending g rest send))
    (hlog : Always (Allowed gated) log) (outcome : Except String String) :
    Always (Allowed gated) (log ++ [.sent k rest.length send outcome]) ∧
      Ahead k rest.length (log ++ [.sent k rest.length send outcome]) := by
  obtain ⟨-, hahead, -, hsend, -, hsents⟩ := h
  refine ⟨always_append_singleton.mpr ⟨hlog, ⟨g, hsend⟩, hsents⟩, fun g' i send' hmem => ?_,
    fun i send' outcome' hmem => ?_⟩
  · exact hahead.send g' i send' (by simpa using hmem)
  · rcases List.mem_append.mp hmem with hmem | hmem
    · exact hahead.sent i send' outcome' hmem
    · cases List.mem_singleton.mp hmem
      exact le_rfl

/-- The next send follows. -/
theorem HandlerOk.next (h : HandlerOk gated log gate k (.sending g rest send))
    (hlog : Always (Allowed gated) log) (hheld : gate = held log) {outcome : Except String String}
    {send' : Send} (hstage : send.stage < send'.stage)
    (hfollows : Follows gated (log ++ [.sent k rest.length send outcome]) k g rest.length send') :
    Always (Allowed gated)
        (log ++ [.sent k rest.length send outcome, .send k g rest.length send']) ∧
      HandlerOk gated (log ++ [.sent k rest.length send outcome, .send k g rest.length send']) gate k
        (.sending g rest send') := by
  obtain ⟨hended, hahead'⟩ := h.sent hlog outcome
  obtain ⟨hbegan, hahead, hpermit, hsend, hsends, hsents⟩ := h
  rw [List.append_cons]
  -- the sends of a batch go up from stage to stage
  have hbefore : ∀ g' send'', .send k g' rest.length send'' ∈
      log ++ [.sent k rest.length send outcome] → send''.stage < send'.stage := by
    intro g' send'' hmem
    exact (hsends g' send'' (by simpa using hmem)).trans_lt hstage
  have hheld' : held (log ++ [.sent k rest.length send outcome]) = gate := by
    rw [held_append, hheld]
    rfl
  refine ⟨always_append_singleton.mpr ⟨hended, List.mem_append_left _ hbegan, hbefore,
    fun hgated => hheld'.trans (hpermit hgated), hfollows⟩, by simp [hbegan], ⟨?_, ?_⟩, hpermit,
    by simp, ?_, ?_⟩
  · intro g' i send'' hmem
    rcases List.mem_append.mp hmem with hmem | hmem
    · exact hahead'.send g' i send'' hmem
    · cases List.mem_singleton.mp hmem
      exact le_rfl
  · intro i send'' outcome' hmem
    exact hahead'.sent i send'' outcome' (by simpa using hmem)
  · intro g' send'' hmem
    rcases List.mem_append.mp hmem with hmem | hmem
    · exact (hbefore g' send'' hmem).le
    · cases List.mem_singleton.mp hmem
      exact le_rfl
  · intro send'' outcome' hmem
    have hmem : .sent k rest.length send'' outcome' ∈ log ++ [.sent k rest.length send outcome] := by
      simpa using hmem
    rcases List.mem_append.mp hmem with hmem | hmem
    · exact (hsents send'' outcome' hmem).trans hstage
    · cases List.mem_singleton.mp hmem
      exact hstage

theorem Ok.live (h : Ok gated s) (hactive : s.loop.active = some g) : Live g s.log := by
  obtain ⟨hactivated, hgone⟩ := h.loop.ok.live hactive
  exact ⟨(h.mirrored _).mpr hactivated, fun hmem => hgone ((h.mirrored _).mp hmem)⟩

theorem Ok.shows_active (h : Ok gated s) (hactive : s.loop.active = some g) :
    s.loop.phase.shows? = some g := by
  have hrunning := h.loop.ok.active g hactive
  cases hphase : s.loop.phase <;> rw [hphase] at hrunning <;> first | exact hrunning | cases hrunning

/-- The future `k` has got as far as its next await. -/
theorem Ok.goto (h : Ok gated s) {scanned : ℕ → Bool} {segment : List Event × Handler}
    (hes : ∀ e ∈ segment.1, e.about? = some k ∨ ∃ owner, e = .acquire owner ∨ e = .release owner)
    (hnew : ∀ k' g' pn lid, .status k' g' (.setConnected pn lid) ∈ segment.1 →
      s.loop.active = some g')
    (hgate : ∀ k', k' ≠ k → s.gate = some (.handler k') →
      segment.1.foldl System.hold s.gate = some (.handler k'))
    (hok : Always (Allowed gated) (s.log ++ segment.1) ∧
      HandlerOk gated (s.log ++ segment.1) (segment.1.foldl System.hold s.gate) k segment.2) :
    Ok gated ({ s with scanned }.goto k segment) where
  loop := h.loop
  mirrored := by
    intro e
    -- a handler logs nothing in the name of the supervisor
    have hnone : .supervisor e ∉ segment.1 := by
      intro hmem
      rcases hes _ hmem with habout | ⟨owner, heq | heq⟩
      · cases habout
      · cases heq
      · cases heq
    simpa [System.goto, System.emit, hnone] using h.mirrored e
  allowed := hok.1
  gate := by
    change segment.1.foldl System.hold s.gate = held (s.log ++ segment.1)
    rw [held_append, h.gate]
  handlers := by
    intro k'
    by_cases hk : k' = k
    · subst hk
      simpa [System.goto, System.emit] using hok.2
    · simp only [System.goto, Function.update_of_ne hk]
      refine (h.handlers k').append (fun e he habout => ?_) (hgate k' hk)
      rcases hes e he with hown | ⟨owner, rfl | rfl⟩
      · exact hk (Option.some.inj (habout.symm.trans hown))
      · cases habout
      · cases habout
  shows := by
    refine h.shows.append rfl rfl (fun op hmem => ?_) (fun k' g' pn lid hmem => ?_) fun g' _ => id
    · rcases hes _ hmem with habout | ⟨owner, heq | heq⟩
      · cases habout
      · cases heq
      · cases heq
    · exact h.shows_active (hnew k' g' pn lid hmem)

theorem mem_first {scan : Bool} {event : BotEvent} {e : Event}
    (h : e ∈ (first gated scan k g event).1) :
    (∃ op, e = .status k g op) ∨ ∃ i, e = .send k g i .reaction := by
  cases event with
  | messages batch =>
    rcases mem_drain h with ⟨entry, rfl⟩ | hsend
    · exact Or.inl ⟨_, rfl⟩
    · exact Or.inr hsend
  | other => cases h
  | _ => exact Or.inl ⟨_, List.mem_singleton.mp h⟩

theorem mem_leave {e : Event} (h : e ∈ (leave gated k g rest).1) :
    (∃ entry, e = .status k g (.recordMessage entry)) ∨ (∃ i, e = .send k g i .reaction) ∨
      e = .release (.handler k) := by
  rcases List.mem_append.mp h with hrelease | hdrain
  · cases gated with
    | false => cases hrelease
    | true => exact Or.inr (Or.inr (List.mem_singleton.mp hrelease))
  · rcases mem_drain hdrain with hrecord | hsend
    · exact Or.inl hrecord
    · exact Or.inr (Or.inl hsend)

theorem Ok.poll (h : Ok gated s) {event : BotEvent} {scan : Bool} {scanned : ℕ → Bool}
    (hhandler : s.handlers k = .arrived g event) (hactive : s.loop.active = some g) :
    Ok gated ({ s with scanned }.goto k
      (.began k g :: (first gated scan k g event).1, (first gated scan k g event).2)) := by
  obtain ⟨hfresh, hahead⟩ : (∀ g, .began k g ∉ s.log) ∧ ∀ n, Ahead k n s.log := by
    have hok := h.handlers k
    rw [hhandler] at hok
    exact hok
  have hlive := h.live hactive
  have hbegan : Always (Allowed gated) (s.log ++ [.began k g]) :=
    always_append_singleton.mpr ⟨h.allowed, hlive, hfresh⟩
  have hahead' : ∀ n, Ahead k n (s.log ++ [.began k g]) := fun n =>
    ⟨fun g i send hmem => (hahead n).send g i send (by simpa using hmem),
      fun i send outcome hmem => (hahead n).sent i send outcome (by simpa using hmem)⟩
  have hgate : (first gated scan k g event).1.foldl System.hold s.gate = s.gate := by
    apply foldl_hold
    intro e he
    rcases mem_first he with ⟨op, rfl⟩ | ⟨i, rfl⟩ <;> rfl
  refine h.goto (fun e he => Or.inl ?_) (fun k' g' pn lid hmem => ?_) (fun k' _ hheld => ?_) ?_
  · rcases List.mem_cons.mp he with rfl | he
    · rfl
    · rcases mem_first he with ⟨op, rfl⟩ | ⟨i, rfl⟩ <;> rfl
  · have hmem : .status k' g' (.setConnected pn lid) ∈ (first gated scan k g event).1 := by
      simpa using hmem
    rcases mem_first hmem with ⟨op, heq⟩ | ⟨i, heq⟩ <;> cases heq
    exact hactive
  · change (first gated scan k g event).1.foldl System.hold s.gate = _
    rw [hgate, hheld]
  · rw [List.append_cons]
    exact first_ok hbegan (by simp) (hlive.append (by simp)) hahead'

theorem Ok.handlerOk (h : Ok gated s) {handler : Handler} (hhandler : s.handlers k = handler) :
    HandlerOk gated s.log s.gate k handler := hhandler ▸ h.handlers k

/-- A step on which nothing happens. -/
theorem Ok.silent (h : Ok gated s) {handler : Handler} (hok : HandlerOk gated s.log s.gate k handler) :
    Ok gated (s.goto k ([], handler)) := by
  refine h.goto (by simp) (by simp) (fun _ _ => id) ⟨?_, ?_⟩
  · rw [List.append_nil]
    exact h.allowed
  · rw [List.append_nil]
    exact hok

theorem Ok.acquire (h : Ok gated s) (hhandler : s.handlers k = .acquiring g rest)
    (hgate : s.gate = none) : Ok gated (s.goto k ([.acquire (.handler k)], .admitted g rest)) := by
  obtain ⟨hbegan, hahead⟩ := h.handlerOk hhandler
  refine h.goto (fun e he => Or.inr ⟨_, Or.inl (List.mem_singleton.mp he)⟩) (by simp) ?_ ⟨?_, ?_, ?_, rfl⟩
  · intro k' _ hheld
    rw [hgate] at hheld
    cases hheld
  · refine always_append_singleton.mpr ⟨h.allowed, ?_⟩
    change held s.log = none
    rw [← h.gate, hgate]
  · exact List.mem_append_left _ hbegan
  · exact hahead.append (by simp [Event.about?])

theorem Ok.clear (h : Ok gated s) (hhandler : s.handlers k = .admitted g rest)
    (hactive : s.loop.active = some g) :
    Ok gated (s.goto k
      ([.cleared k g, .send k g rest.length .reaction], .sending g rest .reaction)) := by
  obtain ⟨hbegan, hahead, hgate⟩ := h.handlerOk hhandler
  have hlive := h.live hactive
  have hahead' : Ahead k (rest.length + 1) (s.log ++ [.cleared k g]) :=
    ⟨fun g i send hmem => hahead.send g i send (by simpa using hmem),
      fun i send outcome hmem => hahead.sent i send outcome (by simpa using hmem)⟩
  have hheld : held (s.log ++ [.cleared k g]) = some (.handler k) := by
    rw [held_append, ← h.gate, hgate]
    rfl
  refine h.goto (by simp [Event.about?]) (by simp) (fun _ _ => id) ?_
  rw [List.append_cons]
  constructor
  · refine always_append_singleton.mpr ⟨always_append_singleton.mpr ⟨h.allowed, hlive⟩, ?_⟩
    exact allowed_reaction (by simp [hbegan]) hahead' fun _ => ⟨hheld, hlive.append (by simp)⟩
  · exact handlerOk_reaction (by simp [hbegan]) hahead' fun _ => hgate

/-- The answer to a ping is over; `es` is how it has ended. -/
theorem Ok.leave (h : Ok gated s) (es : List Event) (hes : ∀ e ∈ es, ∃ i send outcome, e = .sent k i send outcome)
    (hlog : Always (Allowed gated) (s.log ++ es)) (hbegan : .began k g ∈ s.log)
    (hahead : Ahead k rest.length (s.log ++ es))
    (hgate : gated = true → s.gate = some (.handler k)) :
    Ok gated (s.goto k (es ++ (leave gated k g rest).1, (leave gated k g rest).2)) := by
  have hquiet : es.foldl System.hold s.gate = s.gate := by
    apply foldl_hold
    intro e he
    obtain ⟨i, send, outcome, rfl⟩ := hes e he
    rfl
  refine h.goto (fun e he => ?_) (fun k' g' pn lid hmem => ?_) (fun k' hk hheld => ?_) ?_
  · rcases List.mem_append.mp he with he | he
    · obtain ⟨i, send, outcome, rfl⟩ := hes e he
      exact Or.inl rfl
    · rcases mem_leave he with ⟨entry, rfl⟩ | ⟨i, rfl⟩ | rfl
      · exact Or.inl rfl
      · exact Or.inl rfl
      · exact Or.inr ⟨_, Or.inr rfl⟩
  · rcases List.mem_append.mp hmem with hmem | hmem
    · obtain ⟨i, send, outcome, heq⟩ := hes _ hmem
      cases heq
    · rcases mem_leave hmem with ⟨entry, heq⟩ | ⟨i, heq⟩ | heq <;> cases heq
  · rw [List.foldl_append, hquiet, foldl_hold_leave]
    split
    · rename_i hgated
      rw [hgate hgated] at hheld
      cases hheld
      exact absurd rfl hk
    · exact hheld
  · rw [← List.append_assoc]
    refine leave_ok hlog (List.mem_append_left _ hbegan) hahead fun hgated => ?_
    rw [held_append, ← h.gate, hquiet, hgate hgated]

theorem Ok.next (h : Ok gated s) {outcome : Except String String} {send' : Send}
    (hhandler : s.handlers k = .sending g rest send) (hstage : send.stage < send'.stage)
    (hfollows : Follows gated (s.log ++ [.sent k rest.length send outcome]) k g rest.length send') :
    Ok gated (s.goto k ([.sent k rest.length send outcome, .send k g rest.length send'],
      .sending g rest send')) := by
  refine h.goto (by simp [Event.about?]) (by simp) (fun _ _ => id) ?_
  exact (h.handlerOk hhandler).next h.allowed h.gate hstage hfollows

theorem Ok.move (h : Ok gated s) (hmove : Move gated autopair s k s') : Ok gated s' := by
  cases hmove with
  | stale hhandler hactive => exact h.silent trivial
  | poll hhandler hactive => exact h.poll hhandler hactive
  | scan hhandler => exact h.silent trivial
  | acquire hhandler hgate => exact h.acquire hhandler hgate
  | clear hhandler hactive => exact h.clear hhandler hactive
  | superseded hhandler hactive =>
    obtain ⟨hbegan, hahead, hgate⟩ := h.handlerOk hhandler
    refine h.leave [] (by simp) ?_ hbegan ?_ fun _ => hgate
    · simpa using h.allowed
    · simpa using hahead.mono (Nat.le_succ _)
  | reacted outcome hhandler =>
    exact h.next hhandler Nat.one_pos ⟨outcome, List.mem_append_right _ (List.mem_singleton.mpr rfl)⟩
  | replied messageId duration hhandler =>
    exact h.next hhandler (Nat.lt_succ_self _) (List.mem_append_right _ (List.mem_singleton.mpr rfl))
  | @replyFailed g rest error hhandler =>
    have hok := h.handlerOk hhandler
    obtain ⟨hlog, hahead⟩ := hok.sent h.allowed (.error error)
    exact h.leave [_] (by simp) hlog hok.1 hahead hok.2.2.1
  | edited outcome hhandler =>
    have hok := h.handlerOk hhandler
    obtain ⟨hlog, hahead⟩ := hok.sent h.allowed outcome
    exact h.leave [_] (by simp) hlog hok.1 hahead hok.2.2.1

/-! ### The other parties -/

/-- What the other parties do. -/
theorem Ok.emit (h : Ok gated s) (es : List Event) {loop : ClientLoop.System} (hloop : ClientLoop.Reachable loop)
    (hmirrored : ∀ e, .supervisor e ∈ s.log ++ es ↔ e ∈ loop.log)
    (hes : ∀ e ∈ es, e.about? = none) (hallowed : Always (Allowed gated) (s.log ++ es))
    (hgate : ∀ k, s.gate = some (.handler k) → es.foldl System.hold s.gate = some (.handler k))
    (hshows : Shows { s.emit es with loop }) : Ok gated { s.emit es with loop } where
  loop := hloop
  mirrored := hmirrored
  allowed := hallowed
  gate := by
    change es.foldl System.hold s.gate = held (s.log ++ es)
    rw [held_append, h.gate]
  handlers := by
    intro k
    refine (h.handlers k).append (fun e he habout => ?_) (hgate k)
    rw [hes e he] at habout
    cases habout
  shows := hshows

/-- A client stays shown until the supervisor says that it is gone. -/
theorem shows?_of_step {l l' : ClientLoop.System} {events : List ClientLoop.Event}
    (h : ClientLoop.Step l l') (hlog : l'.log = l.log ++ events)
    (hquiet : ∀ g loggedOut, .status g loggedOut ∉ events) (hshows : l.phase.shows? = some g) :
    l'.phase.shows? = some g := by
  cases h with
  | supervisor hmove =>
    cases hmove with
    | stopped hphase | deactivate hphase | load hphase =>
      rw [hphase] at hshows
      exact hshows
    | @status g exit hphase =>
      have hevents : [.status g (exit = .resetCredentials)] = events := List.append_cancel_left hlog
      refine absurd (List.mem_singleton.mpr rfl) (hevents ▸ hquiet g _)
    | _ =>
      rename_i hphase
      simp_all [ClientLoop.Phase.shows?]
  | _ => exact hshows

theorem Ok.loopStep (h : Ok gated s) {loop : ClientLoop.System} {events : List ClientLoop.Event}
    (hstep : ClientLoop.Step s.loop loop) (hlog : loop.log = s.loop.log ++ events) :
    Ok gated { s.emit (events.map .supervisor) with loop } := by
  have hmem : ∀ {e : Event}, e ∈ events.map .supervisor → ∃ event, e = .supervisor event := by
    intro e he
    obtain ⟨event, -, rfl⟩ := List.mem_map.mp he
    exact ⟨event, rfl⟩
  refine h.emit _ (h.loop.tail hstep) (fun e => ?_) (fun e he => ?_) ?_ (fun k hheld => ?_) ?_
  · rw [hlog, List.mem_append, List.mem_append, h.mirrored]
    simp
  · obtain ⟨event, rfl⟩ := hmem he
    rfl
  · refine h.allowed.append fun e he past => ?_
    obtain ⟨event, rfl⟩ := hmem he
    trivial
  · rw [foldl_hold fun e he => ?_, hheld]
    obtain ⟨event, rfl⟩ := hmem he
    rfl
  · refine h.shows.append rfl rfl (by simp) (by simp) fun g hquiet hshows => ?_
    exact shows?_of_step hstep hlog (by simpa using hquiet) hshows

/-- One event of somebody else. -/
theorem Ok.foreign (h : Ok gated s) {e : Event} (habout : e.about? = none)
    (hsupervisor : ∀ event, e ≠ .supervisor event) (hallowed : Allowed gated s.log e)
    (hgate : ∀ k, s.gate = some (.handler k) → System.hold s.gate e = some (.handler k))
    (hother : ∀ op, e = .other op → Foreign op) : Ok gated (s.emit [e]) := by
  refine h.emit [e] h.loop (fun event => ?_) (by simp [habout]) ?_ hgate ?_
  · rw [← h.mirrored]
    simp [(hsupervisor event).symm]
  · exact always_append_singleton.mpr ⟨h.allowed, hallowed⟩
  · refine h.shows.append rfl rfl (fun op hop => ?_) (fun k g pn lid hmem => ?_) fun _ _ => id
    · exact hother op (List.mem_singleton.mp hop).symm
    · rw [← List.mem_singleton.mp hmem] at habout
      cases habout

theorem Ok.step (h : Ok gated s) (hstep : Step gated autopair s s') : Ok gated s' := by
  cases hstep with
  | handler hawaits hmove => exact h.move hmove
  | arrive event habsent hg =>
    have hfresh := h.handlerOk habsent
    exact h.silent hfresh
  | loop hstep hlog => exact h.loopStep hstep hlog
  | otherAcquire hgate =>
    refine h.foreign rfl (by simp) (h.gate.symm.trans hgate) (fun k hheld => ?_) (by simp)
    rw [hgate] at hheld
    cases hheld
  | otherRelease hgate =>
    refine h.foreign rfl (by simp) (h.gate.symm.trans hgate) (fun k hheld => ?_) (by simp)
    rw [hgate] at hheld
    cases hheld
  | other op hforeign =>
    refine h.foreign rfl (by simp) trivial (fun k => id) fun op' heq => ?_
    cases heq
    exact hforeign

theorem Reachable.ok (h : Reachable gated autopair s) : Ok gated s := by
  induction h with
  | refl =>
    refine ⟨.refl, by simp [System.initial, ClientLoop.System.initial], always_nil, rfl, fun k => ?_,
      fun hconnected => by cases hconnected⟩
    exact ⟨by simp [System.initial], fun n => ⟨by simp [System.initial], by simp [System.initial]⟩⟩
  | tail _ hstep ih => exact ih.step hstep

/-- **Superseded clients leave no trace, and pings are answered in order.**  In every run, with any
number of events under way for any number of clients, what happens is allowed; and whenever the
supervisor waits, a dashboard that says it is connected shows the account that the running client
reported. -/
theorem events_allowed (h : Reachable gated autopair s) :
    Always (Allowed gated) s.log ∧
      (s.loop.phase.awaits = true → s.status.connected = true → ∃ k g, s.loop.phase = .run g ∧
        .status k g (.setConnected s.status.pn s.status.lid) ∈ s.log) := by
  refine ⟨h.ok.allowed, fun hawaits hconnected => ?_⟩
  obtain ⟨k, g, hshows, hmem⟩ := h.ok.shows hconnected
  cases hphase : s.loop.phase <;> rw [hphase] at hshows hawaits <;> cases hshows
  case run => exact ⟨k, g, rfl, hmem⟩
  all_goals cases hawaits

end

/-- A ping from the account that is connected. -/
def ping : Inbound := ⟨"3EB0", "chat", "alice", some pingTrigger, 0, false⟩

/-- The client connects, and the ping is answered on a board with a memory gate. -/
theorem ping_answered : ∃ s, Reachable true false s ∧ s.gate = none ∧
    .sent 1 0 (.edit "3EB1" "1.20s") (.ok "3EB2") ∈ s.log ∧ Always (Allowed true) s.log ∧
    ∃ k g, s.loop.phase = .run g ∧ .status k g (.setConnected (some "pn") none) ∈ s.log := by
  have hrunning : Reachable true false _ :=
    ((Relation.ReflTransGen.single (.loop (.supervisor (.start rfl)) rfl)).tail
      (.loop (.supervisor (.built rfl)) rfl)).tail (.loop (.supervisor (.activate rfl)) rfl)
  have hconnected := (hrunning.tail (.arrive (k := 0) (.connected (some "pn") none) rfl Nat.one_pos)).tail
    (.handler (k := 0) rfl (.poll rfl rfl))
  have hasked := (hconnected.tail (.arrive (k := 1) (.messages [ping]) rfl Nat.one_pos)).tail
    (.handler (k := 1) rfl (.poll rfl rfl))
  have hcleared := (hasked.tail (.handler (k := 1) rfl (.acquire rfl rfl))).tail
    (.handler (k := 1) rfl (.clear rfl rfl))
  have hreplied := (hcleared.tail (.handler (k := 1) rfl (.reacted (.error "timeout") rfl))).tail
    (.handler (k := 1) rfl (.replied "3EB1" "1.20s" rfl))
  have hedited := hreplied.tail (.handler (k := 1) rfl (.edited (.ok "3EB2") rfl))
  obtain ⟨hallowed, hshows⟩ := events_allowed hedited
  exact ⟨_, hedited, rfl, by simp [System.goto, System.emit, leave], hallowed, hshows rfl rfl⟩

end BotEvents

end WhatsappEsp32
