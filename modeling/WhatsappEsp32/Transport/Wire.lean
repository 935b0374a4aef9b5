import WhatsappEsp32.Transport.Jobs

/-!
# The outbound byte stream

What the thread has put on the wire after the handshake.  A frame that the socket takes only in part
ends the connection if it is a message or a close, but not if it is a pong.

* `WireStep`, `Steps.wire`: everything one step can do to the wire;
* `WireOk`: the wire agrees with the log, and only a pong can be cut short while the thread may
  still write;
* `Unbroken`: complete frames, and then at most a part of one;
* `stream_valid_iff`: the stream is valid exactly if the socket takes nothing more after it took
  only a part of a pong.
-/

namespace WhatsappEsp32.Transport

open RustIo Ws Trace

variable {A : Arch} {hasPsram : Bool}

/-! ### Steps -/

/-- Whether the thread may still send a frame. -/
def Pc.mayWrite : Pc → Bool
  | refuse _ | leave | refused => false
  | written _ (.error _) => false
  | dropQueue _ | dropPending _ | disconnect _ | exited => false
  | _ => true

/-- The bytes that an event has put on the wire. -/
def Event.bytes : Event → Bytes
  | .wrote _ _ bytes _ => bytes
  | _ => []

/-- The writes to the socket. -/
def Event.isWrite : Event → Bool
  | .wrote _ _ _ _ => true
  | _ => false

/-- What one step does to the wire.  After a message or a close that was not sent as a whole, the
thread sends nothing more. -/
inductive WireStep (s s' : State A) : Prop
  | idle (es : List Event) (hlog : s'.log = s.log ++ es) (hes : ∀ e ∈ es, e.isWrite = false)
      (hsink : s'.sink = s.sink) (hnext : s'.pc.mayWrite = true → s.pc.mayWrite = true)
  | put (mask : Mask) (what : Outgoing) (bytes : Bytes) (result : Except IoError Unit)
      (hlog : s'.log = s.log ++ [.wrote mask what bytes result])
      (hmay : s.pc.mayWrite = true) (hsent : Sent (what.frame mask) bytes result)
      (hputs : s.sink.Puts bytes s'.sink)
      (hnext : s'.pc.mayWrite = true → result = .ok () ∨ ∃ payload, what = .pong payload)

/-- Where the thread goes on when it only moves, it may write only if it could before. -/
theorem Goes.mayWrite {s : State A} {pc : Pc} (h : Goes s pc) (hmay : pc.mayWrite = true) :
    s.pc.mayWrite = true := by
  cases h with
  | fail failure hpc => cases hmay
  | connect hpc | shut hpc | drain hpc | drained hpc => rw [hpc]; rfl

theorem Sends.mayWrite {pc pc' : Pc} {what : Outgoing} {result : Except IoError Unit}
    (h : Sends pc what result pc') : pc.mayWrite = true ∧
      (pc'.mayWrite = true → result = .ok () ∨ ∃ payload, what = .pong payload) := by
  cases h with
  | shut => exact ⟨rfl, nofun⟩
  | write job =>
    refine ⟨rfl, fun hmay => ?_⟩
    cases result with
    | ok => exact Or.inl rfl
    | error e => cases hmay
  | pong payload => exact ⟨rfl, fun _ => Or.inr ⟨payload, rfl⟩⟩
  | echoClose reason => exact ⟨rfl, nofun⟩

/-- Everything the next action of the thread can do to the wire. -/
theorem wireStep_acts {s s' : State A} {mask : Mask} (h : Acts hasPsram mask s s') :
    WireStep s s' := by
  cases h with
  | goes pc h => exact .idle [] (by simp) (by simp) rfl h.mayWrite
  | emits event pc h =>
    refine .idle [.emitted event] rfl (by simp [Event.isWrite]) rfl fun hmay => ?_
    generalize s.pc = pc₀ at h
    cases h with
    | announce => rfl
    | refuse | disconnect => cases hmay
  | sends what bytes result sink pc h hsent hputs =>
    exact .put mask what bytes result rfl h.mayWrite.1 hsent hputs h.mayWrite.2
  | take job queue hpc => exact .idle [] (by simp) (by simp) rfl fun _ => by rw [hpc]; rfl
  | report job result hpc =>
    refine .idle [] (by simp) (by simp) rfl fun hmay => ?_
    cases result with
    | ok => rw [hpc]; rfl
    | error e => cases hmay
  | drops pc h =>
    refine .idle [.dropped s.queue] rfl (by simp [Event.isWrite]) rfl fun hmay => ?_
    generalize s.pc = pc₀ at h
    cases h <;> cases hmay
  | approach hpc => exact .idle [] (by simp) (by simp) rfl fun _ => by rw [hpc]; rfl
  | closed event => exact .idle [] (by simp) (by simp) rfl nofun
  | blocked event hpc =>
    exact .idle [.blocked] rfl (by simp [Event.isWrite]) rfl fun _ => by rw [hpc]; rfl
  | forwards event hpc =>
    exact .idle [.emitted event] rfl (by simp [Event.isWrite]) rfl fun _ => by rw [hpc]; rfl
  | reads frame client hpc =>
    exact .idle [.read (.ok frame)] rfl (by simp [Event.isWrite]) rfl fun _ => by rw [hpc]; rfl
  | readFails e client => exact .idle [.read (.error e)] rfl (by simp [Event.isWrite]) rfl nofun
  | dropPending reason => exact .idle [] (by simp) (by simp) rfl nofun

theorem Steps.wire {s s' : State A} (h : Steps hasPsram s s') : WireStep s s' := by
  cases h with
  | thread mask _ h => exact wireStep_acts h
  | refuse e =>
    exact .idle [.returned s.calls (.error e)] rfl (by simp [Event.isWrite]) rfl id
  | enqueue data fits =>
    exact .idle [.enqueued ⟨s.calls, data, fits⟩] rfl (by simp [Event.isWrite]) rfl id
  | complete id completion =>
    exact .idle [.returned id completion.result] rfl (by simp [Event.isWrite]) rfl fun h => h
  | disconnect => exact .idle [] (by simp) (by simp) rfl id
  | receive event => exact .idle [.received event] rfl (by simp [Event.isWrite]) rfl id
  | stopListening => exact .idle [] (by simp) (by simp) rfl id

/-! ### The wire and the log -/

/-- A frame of which the socket took some bytes, but not all. -/
def Event.CutShort : Event → Prop
  | .wrote mask what bytes _ => bytes ≠ [] ∧ bytes ≠ what.frame mask
  | _ => False

instance : DecidablePred Event.CutShort
  | .wrote mask what bytes _ => inferInstanceAs (Decidable (bytes ≠ [] ∧ bytes ≠ what.frame mask))
  | .enqueued _ | .dropped _ | .read _ | .blocked | .emitted _ | .received _ | .returned _ _ =>
    .isFalse id

/-- The writes of a pong. -/
def Event.IsPong : Event → Prop
  | .wrote _ (.pong _) _ _ => True
  | _ => False

/-- After an event of this kind the socket takes no more bytes. -/
def NothingAfter (kind : Event → Prop) (log : List Event) : Prop :=
  Always (fun past e => (∃ c ∈ past, kind c) → e.bytes = []) log

instance (kind : Event → Prop) [DecidablePred kind] (log : List Event) :
    Decidable (NothingAfter kind log) :=
  inferInstanceAs (Decidable (Always _ log))

/-- The wire agrees with the log. -/
structure WireOk (s : State A) : Prop where
  wire : s.sink.wire = s.log.flatMap Event.bytes
  sent : ∀ mask what bytes result, .wrote mask what bytes result ∈ s.log →
    Sent (what.frame mask) bytes result
  cuts : s.pc.mayWrite = true → ∀ e ∈ s.log, e.CutShort → e.IsPong
  quiet : NothingAfter (fun e => e.CutShort ∧ ¬e.IsPong) s.log

theorem bytes_of_isWrite {e : Event} (h : e.isWrite = false) : e.bytes = [] ∧ ¬e.CutShort := by
  cases e with
  | wrote mask what bytes result => cases h
  | _ => exact ⟨rfl, id⟩

/-- Events that are no writes leave a log as quiet as it is. -/
theorem NothingAfter.append {kind : Event → Prop} {log es : List Event} (h : NothingAfter kind log)
    (hes : ∀ e ∈ es, e.bytes = []) : NothingAfter kind (log ++ es) := by
  induction es using List.reverseRecOn with
  | nil => simpa using h
  | append_singleton es e ih =>
    rw [← List.append_assoc]
    refine always_append_singleton.mpr ⟨ih fun e' he' => hes e' (by simp [he']), fun _ => ?_⟩
    exact hes e (by simp)

theorem WireOk.step {s s' : State A} (h : WireOk s) (hstep : WireStep s s') : WireOk s' := by
  cases hstep with
  | idle es hlog hes hsink hnext =>
    have hbytes : es.flatMap Event.bytes = [] :=
      List.flatMap_eq_nil_iff.mpr fun e he => (bytes_of_isWrite (hes e he)).1
    refine ⟨?_, ?_, ?_, ?_⟩
    · rw [hsink, hlog, List.flatMap_append, hbytes, List.append_nil]
      exact h.wire
    · intro mask what bytes result hmem
      rw [hlog] at hmem
      rcases List.mem_append.mp hmem with hmem | hmem
      · exact h.sent mask what bytes result hmem
      · exact nomatch hes _ hmem
    · intro hmay e he hcut
      rw [hlog] at he
      rcases List.mem_append.mp he with he | he
      · exact h.cuts (hnext hmay) e he hcut
      · exact absurd hcut (bytes_of_isWrite (hes e he)).2
    · rw [hlog]
      exact h.quiet.append fun e he => (bytes_of_isWrite (hes e he)).1
  | put mask what bytes result hlog hmay hsent hputs hnext =>
    refine ⟨?_, ?_, ?_, ?_⟩
    · rw [hputs, hlog, h.wire]
      simp [Event.bytes]
    · intro mask' what' bytes' result' hmem
      rw [hlog] at hmem
      rcases List.mem_append.mp hmem with hmem | hmem
      · exact h.sent mask' what' bytes' result' hmem
      · cases List.mem_singleton.mp hmem
        exact hsent
    · intro hmay' e he hcut
      rw [hlog] at he
      rcases List.mem_append.mp he with he | he
      · exact h.cuts hmay e he hcut
      · obtain rfl := List.mem_singleton.mp he
        rcases hnext hmay' with hok | ⟨payload, rfl⟩
        · exact absurd (hsent.whole hok) hcut.2
        · trivial
    · rw [hlog]
      refine always_append_singleton.mpr ⟨h.quiet, ?_⟩
      -- while the thread may write, only pongs have been cut short
      rintro ⟨c, hc, hcut, hpong⟩
      exact absurd (h.cuts hmay c hc hcut) hpong

theorem wireOk_start (failure : Option ConnectFailure) (client : WsClient A) (sink : Sink) :
    WireOk (State.start failure client sink) :=
  ⟨rfl, nofun, nofun, always_nil⟩

theorem State.run_wireOk {failure : Option ConnectFailure} {client : WsClient A} {sink : Sink}
    {actions : List Action} {s : State A}
    (h : (State.start failure client sink).run hasPsram actions = some s) : WireOk s :=
  State.run_induction (wireOk_start failure client sink)
    (fun _ _ hs hstep => hs.step hstep.wire) h

/-! ### Valid streams -/

/-- Complete frames, and then a part of a frame that may be empty but is not the whole. -/
def Unbroken (wire : Bytes) : Prop :=
  ∃ (frames : List Bytes) (tail : Bytes), wire = frames.flatten ++ tail ∧
    (∀ frame ∈ frames, IsClientFrame frame) ∧
    ∃ frame, IsClientFrame frame ∧ tail <+: frame ∧ tail ≠ frame

theorem close_isClientFrame : IsClientFrame (Outgoing.close.frame fun _ => 0) :=
  isClientFrame_of_permitted _ (by decide) (by decide) fun _ => by decide

/-- A log in which nothing was taken after a frame that was cut short. -/
theorem unbroken_of_quiet {log : List Event}
    (hsent : ∀ mask what bytes result, .wrote mask what bytes result ∈ log →
      Sent (what.frame mask) bytes result)
    (hquiet : NothingAfter Event.CutShort log) :
    Unbroken (log.flatMap Event.bytes) ∧ ((∀ e ∈ log, ¬e.CutShort) → ∃ frames : List Bytes,
      log.flatMap Event.bytes = frames.flatten ∧ ∀ frame ∈ frames, IsClientFrame frame) := by
  induction log using List.reverseRecOn with
  | nil =>
    refine ⟨⟨[], [], rfl, nofun, _, close_isClientFrame, List.nil_prefix, ?_⟩, fun _ => ?_⟩
    · exact nofun
    · exact ⟨[], rfl, nofun⟩
  | append_singleton log e ih =>
    obtain ⟨hquiet, he⟩ := always_append_singleton.mp hquiet
    obtain ⟨hunbroken, hwhole⟩ := ih
      (fun mask what bytes result hmem => hsent mask what bytes result (by simp [hmem])) hquiet
    rw [List.flatMap_append, List.flatMap_singleton]
    by_cases hempty : e.bytes = []
    · rw [hempty, List.append_nil]
      exact ⟨hunbroken, fun hcut => hwhole fun e' he' => hcut e' (by simp [he'])⟩
    · -- bytes were taken, so no frame was cut short before
      have hbefore : ∀ c ∈ log, ¬c.CutShort := fun c hc hcut => hempty (he ⟨c, hc, hcut⟩)
      obtain ⟨frames, heq, hframes⟩ := hwhole hbefore
      cases e with
      | wrote mask what bytes result =>
        have hs := hsent mask what bytes result (by simp)
        have hframe : IsClientFrame (what.frame mask) := hs.valid hempty
        rw [heq]
        by_cases hfull : bytes = what.frame mask
        · have hall : frames.flatten ++ Event.bytes (.wrote mask what bytes result) =
              (frames ++ [what.frame mask]).flatten := by simp [Event.bytes, hfull]
          have hvalid : ∀ frame ∈ frames ++ [what.frame mask], IsClientFrame frame := by
            intro frame hmem
            rcases List.mem_append.mp hmem with hmem | hmem
            · exact hframes frame hmem
            · rw [List.mem_singleton.mp hmem]
              exact hframe
          refine ⟨⟨_, [], by rw [hall, List.append_nil], hvalid, _, hframe, List.nil_prefix, ?_⟩,
            fun _ => ⟨_, hall, hvalid⟩⟩
          rw [← hfull]
          exact Ne.symm hempty
        · refine ⟨⟨frames, bytes, rfl, hframes, _, hframe, hs.front, hfull⟩, fun hcut => ?_⟩
          exact absurd ⟨hempty, hfull⟩ (hcut (.wrote mask what bytes result) (by simp))
      | _ => exact absurd rfl hempty

/-- In every run the outbound stream is a sequence of complete frames with at most a part of one at
its end, after which nothing is written, if and only if the socket never takes more bytes after it
took only a part of a pong. -/
theorem stream_valid_iff (failure : Option ConnectFailure) (client : WsClient A) (sink : Sink)
    (actions : List Action) (s : State A)
    (h : (State.start failure client sink).run hasPsram actions = some s) :
    (Unbroken s.sink.wire ∧ NothingAfter Event.CutShort s.log) ↔
      NothingAfter (fun e => e.CutShort ∧ e.IsPong) s.log := by
  have hok := State.run_wireOk h
  constructor
  · rintro ⟨-, hquiet⟩ past e post heq ⟨c, hc, hcut, -⟩
    exact hquiet past e post heq ⟨c, hc, hcut⟩
  · intro hpongs
    have hquiet : NothingAfter Event.CutShort s.log := by
      rintro past e post heq ⟨c, hc, hcut⟩
      by_cases hpong : c.IsPong
      · exact hpongs past e post heq ⟨c, hc, hcut, hpong⟩
      · exact hok.quiet past e post heq ⟨c, hc, hcut, hpong⟩
    rw [hok.wire]
    exact ⟨(unbroken_of_quiet hok.sent hquiet).1, hquiet⟩

/-! ### A pong that is cut short -/

/-- A connected client to whom the server sends a ping. -/
def pingedClient : WsClient esp32 where
  source := ⟨{ inbound := [.data [0x89, 0x00]] }, [], 0⟩
  limits := testLimits
  header := List.replicate maxHeader 0
  headerLen := 0
  incoming := none
  fragments := none

/-- The thread takes its next `n` steps. -/
def turns (n : ℕ) : List Action := List.replicate n (.thread ![1, 2, 3, 4])

/-- The ping is read, a message is queued, and the pong and the message are sent. -/
def pingThenSend : List Action := turns 6 ++ [.send [7, 8, 9] (by decide)] ++ turns 4

/-- A socket that takes one byte, lets the write time out, and is fine again. -/
def stallingSink : Sink := { writes := [.accepts 1, .fails ⟨.timedOut, "write timed out"⟩] }

/-- A socket that works takes the whole pong. -/
theorem pong_stream_valid :
    ∃ s, (State.start none pingedClient {}).run false pingThenSend = some s ∧
      Unbroken s.sink.wire ∧ NothingAfter Event.CutShort s.log := by
  have hrun : ((State.start none pingedClient {}).run false pingThenSend).any
      (fun s => decide (∀ e ∈ s.log, ¬e.CutShort)) = true := by decide +kernel
  obtain ⟨s, hs, hcuts⟩ := (Option.any_eq_true _ _).mp hrun
  refine ⟨s, hs, (stream_valid_iff none pingedClient {} pingThenSend s hs).mpr ?_⟩
  rintro past e post heq ⟨c, hc, hcut, -⟩
  exact absurd hcut (of_decide_eq_true hcuts c (by rw [heq]; simp [hc]))

/-- After a pong of which only the first byte was taken, a message is put on the wire. -/
theorem message_after_torn_pong :
    ∃ s, (State.start none pingedClient stallingSink).run false pingThenSend = some s ∧
      ¬(Unbroken s.sink.wire ∧ NothingAfter Event.CutShort s.log) := by
  have hrun : ((State.start none pingedClient stallingSink).run false pingThenSend).any
      (fun s => decide (¬NothingAfter Event.CutShort s.log)) = true := by decide +kernel
  obtain ⟨s, hs, hbroken⟩ := (Option.any_eq_true _ _).mp hrun
  exact ⟨s, hs, fun h => of_decide_eq_true hbroken h.2⟩

end WhatsappEsp32.Transport
