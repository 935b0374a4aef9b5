import WhatsappEsp32.Ws.Handshake

/-!
# No peer can break the reader

The states of a client are those it can be in before, during and after any number of calls of
`read_frame`, whatever the peer sends in between and however the calls end.  In every one of them
the next call ends without a panic, and what the client holds is within its limits.

* `Reachable`: the states, including those between the three parts of the loop of `read_frame`;
* `reachable_safe`: the invariant holds in all of them;
* `reachable_within_limits`: what follows for the buffers and the next call.
-/

namespace WhatsappEsp32.Ws

open CrashLogic Scripted RustIo WsClient

variable {A : Arch} {limits : Limits A} {s : WsClient A}

/-- The states a client with these limits can be in.  At any time the peer may have sent anything,
and a call may be made after one that failed. -/
inductive Reachable (limits : Limits A) : WsClient A → Prop
  | connected {C : Crypto} {endpoint : Endpoint} {socket : WsSocket} {s : WsClient A}
      (h : connect C endpoint limits socket = .ok s) : Reachable limits s
  | delivered {s : WsClient A} (h : Reachable limits s) (stream : WsSocket) :
      Reachable limits { s with source := { s.source with stream := stream } }
  | called {s : WsClient A} (h : Reachable limits s) : Reachable limits (readFrame s).2
  | headerRead {s : WsClient A} (h : Reachable limits s) : Reachable limits (ensureIncoming s).2
  | payloadRead {s : WsClient A} (h : Reachable limits s) {inc : Incoming}
      (hinc : s.incoming = some inc) : Reachable limits (fillIncoming s).2
  | taken {s : WsClient A} (h : Reachable limits s) {inc : Incoming}
      (hinc : s.incoming = some inc) (hfull : inc.filled = inc.payload.length) :
      Reachable limits (takeIncoming s).2

/-- The invariant, with the limits of the client. -/
def SafeWith (limits : Limits A) (s : WsClient A) : Prop := s.Safe ∧ s.limits = limits

/-- What the peer sends does not matter to the invariant. -/
theorem SafeWith.deliver (h : SafeWith limits s) (stream : WsSocket) :
    SafeWith limits { s with source := { s.source with stream := stream } } := by
  obtain ⟨⟨⟨hsource, hlength, hlen⟩, hle, hidle, hincoming, hfragments⟩, hlimits⟩ := h
  exact ⟨⟨⟨⟨hsource.pos_le, hsource.length_le⟩, hlength, hlen⟩, hle, hidle, hincoming, hfragments⟩,
    hlimits⟩

theorem SafeWith.kept {bytes : Bytes} {s' : WsClient A} (h : SafeWith limits s)
    (h' : Kept s bytes s') : SafeWith limits s' := ⟨h'.safe, h'.limits.trans h.2⟩

theorem SafeWith.failed {bytes : Bytes} {e : Failure} {s' : WsClient A} (h : SafeWith limits s)
    (h' : Failed s bytes e s') : SafeWith limits s' := ⟨h'.safe, h'.limits.trans h.2⟩

/-- The invariant holds in every state. -/
theorem reachable_safe (h : Reachable limits s) : SafeWith limits s := by
  induction h with
  | connected h => exact ⟨(connect_eq_ok h).safe, (connect_eq_ok h).limits⟩
  | delivered _ stream ih => exact ih.deliver stream
  | called _ ih =>
    obtain ⟨bytes, hstands⟩ := ih.1.exists_stands
    refine (((readFrame_spec ih.1 hstands).weaken (fun _ => id) ?_ ?_ (fun _ => id)).ends rfl).2
    · exact fun _ s' h => ⟨h.safe, h.limits.trans ih.2⟩
    · exact fun _ s' h => ⟨h.safe, h.limits.trans ih.2⟩
  | headerRead _ ih =>
    obtain ⟨bytes, hstands⟩ := ih.1.exists_stands
    refine (((ensureIncoming_spec ih.1 hstands).weaken (fun _ => id) ?_ ?_ (fun _ => id)).ends rfl).2
    · exact fun _ s' h => ih.kept h.1
    · exact fun _ s' h => ih.failed h
  | payloadRead _ hinc ih =>
    obtain ⟨bytes, hstands⟩ := ih.1.exists_stands
    refine (((fillIncoming_spec ih.1 hstands hinc).weaken (fun _ => id) ?_ ?_
      (fun _ => id)).ends rfl).2
    · exact fun _ s' h => ih.kept h.1
    · exact fun _ s' h => ih.failed h
  | taken _ hinc hfull ih =>
    obtain ⟨bytes, hstands⟩ := ih.1.exists_stands
    refine (((takeIncoming_spec ih.1 hstands hinc hfull).weaken (fun _ => id) ?_ ?_
      (fun _ => id)).ends rfl).2
    · exact fun _ s' h => ⟨h.1, h.2.2.1.trans ih.2⟩
    · exact fun _ s' h => ih.failed h

/-- Control frames, by their opcode. -/
def IsControl (opcode : UInt8) : Prop := opcode = opClose ∨ opcode = opPing ∨ opcode = opPong

theorem not_isControl : ¬IsControl opContinuation ∧ ¬IsControl opText ∧ ¬IsControl opBinary := by
  unfold IsControl
  decide

/-- What a payload buffer was allocated for. -/
theorem WsClient.IncomingOk.bounds {fragments : Option Partial} {inc : Incoming}
    (h : IncomingOk limits fragments inc)
    (hfragments : ∀ fragment, fragments = some fragment → PartialOk limits fragment) :
    (IsControl inc.opcode → inc.payload.length ≤ maxControlPayload) ∧
    (¬IsControl inc.opcode → inc.payload.length ≤ limits.maxFrameSize) ∧
    (inc.opcode = opContinuation → ∃ fragment, fragments = some fragment ∧
      fragment.buf.length + inc.payload.length ≤ limits.maxMessageSize) := by
  obtain ⟨hcheck, hisize⟩ := h.checked
  rcases checkFrame_cases hcheck with ⟨hcontrol, hle⟩ | ⟨hcont, hle, fragment, rfl, hsum⟩ |
    ⟨hdata, hle, -, -⟩
  · refine ⟨fun _ => hle, fun hnot => (hnot hcontrol).elim, fun hcont => ?_⟩
    exact (not_isControl.1 (hcont ▸ hcontrol)).elim
  · refine ⟨fun hcontrol => ?_, fun _ => hle, fun _ => ⟨fragment, rfl, ?_⟩⟩
    · exact (not_isControl.1 (hcont ▸ hcontrol)).elim
    · -- both lengths are at most `isize::MAX`, so that the addition does not saturate
      have hold := (hfragments fragment rfl).le_isize
      unfold saturatingAdd at hsum
      unfold Arch.isizeMax at *
      omega
  · rcases hdata with hop | hop
    · refine ⟨fun hcontrol => (not_isControl.2.1 (hop ▸ hcontrol)).elim, fun _ => hle, fun hcont => ?_⟩
      exact absurd (hop.symm.trans hcont) (by decide)
    · refine ⟨fun hcontrol => (not_isControl.2.2 (hop ▸ hcontrol)).elim, fun _ => hle, fun hcont => ?_⟩
      exact absurd (hop.symm.trans hcont) (by decide)

/-- In every state the next call of `read_frame` ends without a panic of the reader's own.  A limit
above `isize::MAX` lets `BytesMut::with_capacity` panic, which the model reports as the failure
`capacityOverflow`, and that happens under such a limit only.  A payload buffer belongs to a header
that has passed all checks and is within the bounds of its kind of frame, and a message in progress
is within the limit for messages, together with the payload that is to continue it. -/
theorem reachable_within_limits (h : Reachable limits s) :
    (readFrame s).1 ≠ .halted ∧
    ((readFrame s).1 = .error .capacityOverflow →
      A.isizeMax < limits.maxFrameSize ∨ A.isizeMax < limits.maxMessageSize) ∧
    (∀ inc, s.incoming = some inc →
      (∃ head, parseHead limits s.fragments head =
        .ok (⟨inc.fin, inc.opcode, inc.payload.length⟩, [])) ∧
      (IsControl inc.opcode → inc.payload.length ≤ maxControlPayload) ∧
      (¬IsControl inc.opcode → inc.payload.length ≤ limits.maxFrameSize) ∧
      (inc.opcode = opContinuation → ∃ fragment, s.fragments = some fragment ∧
        fragment.buf.length + inc.payload.length ≤ limits.maxMessageSize)) ∧
    ∀ fragment, s.fragments = some fragment →
      fragment.buf.length ≤ limits.maxMessageSize := by
  obtain ⟨hsafe, rfl⟩ := reachable_safe h
  obtain ⟨bytes, hstands⟩ := hsafe.exists_stands
  have hspec := readFrame_spec hsafe hstands s rfl
  refine ⟨?_, ?_, ?_, ?_⟩
  · intro hhalted
    rw [hhalted] at hspec
    exact hspec
  · intro herror
    rw [herror] at hspec
    exact hspec.overflow rfl
  · intro inc hinc
    have hok := hsafe.incoming inc hinc
    exact ⟨hok.parsed, hok.bounds hsafe.fragments⟩
  · intro fragment hfragment
    exact (hsafe.fragments fragment hfragment).le_message

/-- A client that has read the response and, with it, the first bytes of a frame. -/
theorem rfcClient_within_limits : ∃ s, connect rfcCrypto testEndpoint testLimits
      { inbound := [.data (rfcResponse ++ [0x82, 5, 104, 101])] } = .ok s ∧
    (readFrame (readFrame s).2).1 ≠ .halted ∧
    ∀ inc, (readFrame s).2.incoming = some inc → ¬IsControl inc.opcode →
      inc.payload.length ≤ 32 * 1024 := by
  obtain ⟨s, hs, -⟩ := rfcResponse_connects [0x82, 5, 104, 101]
    (polite_data (rfcResponse ++ [0x82, 5, 104, 101]) (by simp)) (inTime_data _) (List.append_nil _)
  have hlimits := reachable_within_limits (.called (.connected hs))
  exact ⟨s, hs, hlimits.1, fun inc hinc => (hlimits.2.2.1 inc hinc).2.2.1⟩

end WhatsappEsp32.Ws
