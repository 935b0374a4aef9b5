import WhatsappEsp32.Ws.Handshake

/-!
# A whole session

`session` connects and then calls `read_frame` again and again, skipping the calls that would block,
up to the first error.  What it gives is a function of the bytes of the stream alone.

* `drain_spec`: enough calls decode what is left of the stream;
* `session_eq_decode`: a session is the verdict on the response followed by `decode`;
* `session_eq_whole`: no delivery differs from the one that delivers everything at once.
-/

namespace WhatsappEsp32.Ws

open CrashLogic Scripted RustIo WsClient

variable {A : Arch} {C : Crypto} {endpoint : Endpoint} {limits : Limits A} {s : WsClient A}

/-- Call `read_frame` up to `calls` times: the frames, the error that ended the calls, and the client
at the end.  No error means that the calls have run out or that one has panicked. -/
def drain : ℕ → WsClient A → List Frame × Option Failure × WsClient A
  | 0, s => ([], none, s)
  | calls + 1, s =>
    match readFrame s with
    | (.ok (some frame), s') =>
      (frame :: (drain calls s').1, (drain calls s').2)
    | (.ok none, s') => drain calls s'
    | (.error e, s') => ([], some e, s')
    | (.halted, s') => ([], none, s')

/-- Connect, then read to the first error. -/
def session (C : Crypto) (endpoint : Endpoint) (limits : Limits A) (calls : ℕ) (socket : WsSocket) :
    Outcome IoError (List Frame × Option Failure) :=
  match connect C endpoint limits socket with
  | .ok s => .ok ((drain calls s).1, (drain calls s).2.1)
  | .error e => .error e
  | .halted => .halted

/-- What a run of calls has done, against what decoding gives. -/
structure Drained (d : List Frame × Ending) (r : List Frame × Option Failure × WsClient A) :
    Prop where
  frames : r.1 = d.1
  failure : r.2.1 = d.2.failure
  isSome : d.2.failure.isSome
  atEnd : d.2.rest = [] → r.2.2.Fresh ∧ r.2.2.fragments = d.2.fragments

theorem drain_spec (calls : ℕ) {bytes : Bytes} (h : s.Safe) (hstands : s.Stands bytes)
    (hpolite : Polite s.source.stream.inbound)
    (hcalls : 2 * s.source.size + 1 < calls ∨ s.Fresh ∧ 2 * s.source.size < calls) :
    Drained (decode s.limits s.fragments bytes) (drain calls s) := by
  induction calls generalizing s bytes with
  | zero => omega
  | succ calls ih =>
    have hspec := readFrame_spec h hstands s rfl
    unfold drain
    generalize readFrame s = r at hspec
    obtain ⟨outcome, s'⟩ := r
    cases outcome with
    | halted => exact hspec.elim
    | error e =>
      obtain ⟨fragments, rest, hdecode, hend⟩ := hspec.stop hpolite
      rw [hdecode]
      exact ⟨rfl, rfl, rfl, hend⟩
    | ok out =>
      obtain ⟨hsafe, hlimits, ⟨taken, hreads⟩, hnext⟩ := hspec
      simp only at hsafe hlimits hreads hnext
      have hsize := hreads.size
      cases out with
      | none =>
        -- a read of the stream has been used up
        obtain ⟨hwaits, bytes', hstands', hdecode⟩ := hnext
        have hless := hwaits hpolite
        rw [hdecode, ← hlimits]
        exact ih hsafe hstands' (hreads.polite hpolite) (Or.inl (by omega))
      | some frame =>
        obtain ⟨hfresh, hshorter, hdecode⟩ := hnext
        have hlength := congrArg List.length hreads.rest
        rw [List.length_append] at hlength
        have hless : 2 * s'.source.size < calls := by
          rcases hcalls with hlt | ⟨hs, hlt⟩
          · omega
          · have := hshorter hs
            omega
        rw [hdecode, ← hlimits]
        have hrest := ih hsafe hfresh.stands (hreads.polite hpolite) (Or.inr ⟨hfresh, hless⟩)
        refine ⟨?_, hrest.failure, hrest.isSome, hrest.atEnd⟩
        show frame :: _ = frame :: _
        rw [hrest.frames]

variable (C endpoint limits) in
/-- A session is the verdict on the response, and then what `decode` makes of the rest of the
stream, up to and including an error. -/
theorem session_spec (socket : WsSocket) {headerEnd calls : ℕ} (hpolite : Polite socket.inbound)
    (htime : InTime socket.inbound) (hblock : HeaderBlock socket.inbound.payload headerEnd)
    (hcalls : 2 * socket.inbound.size < calls) :
    match upgradeVerdict C endpoint socket.writeErr (socket.inbound.payload.take headerEnd) with
    | .error e => session C endpoint limits calls socket = .error e
    | .ok () => ∃ e,
        (decode limits none (socket.inbound.payload.drop (headerEnd + 4))).2.failure = some e ∧
        session C endpoint limits calls socket =
          .ok ((decode limits none (socket.inbound.payload.drop (headerEnd + 4))).1, some e) := by
  have hconnect := connect_delivery C endpoint limits hpolite htime hblock
  unfold session
  cases hverdict :
      upgradeVerdict C endpoint socket.writeErr (socket.inbound.payload.take headerEnd) with
  | error e =>
    rw [hverdict] at hconnect
    simp only [hconnect]
  | ok u =>
    rw [hverdict] at hconnect
    obtain ⟨s, hs, hconnected⟩ := hconnect
    have hsize := hconnected.size
    have hdrain := drain_spec calls hconnected.safe hconnected.fresh.stands hconnected.polite
      (Or.inr ⟨hconnected.fresh, by omega⟩)
    rw [hconnected.limits, hconnected.fragments, hconnected.rest] at hdrain
    obtain ⟨e, he⟩ := Option.isSome_iff_exists.mp hdrain.isSome
    refine ⟨e, he, ?_⟩
    rw [hs]
    simp only [hdrain.frames, hdrain.failure, he]

theorem HeaderBlock.ne_nil {stream : Bytes} {headerEnd : ℕ} (h : HeaderBlock stream headerEnd) :
    stream ≠ [] := by
  intro hnil
  have hbound := RustStr.position_bound h.found
  rw [length_blankLine, hnil, List.length_nil] at hbound
  omega

/-- For every stream with a header block of at most 4096 bytes and every way to deliver it, in
non-empty reads with any number of would-blocks in between, a session gives the same verdict and the
same frames up to and including the first error as when the stream is delivered at once.  It fails
with the verdict on the response; or the response is accepted, and then these are the frames of the
bytes behind the blank line, each byte once and in order. -/
theorem session_eq_whole (socket : WsSocket) {stream : Bytes} {delivery : Script UInt8 ReadError}
    {headerEnd calls wholeCalls : ℕ} (hblock : HeaderBlock stream headerEnd)
    (hpolite : Polite delivery) (htime : InTime delivery) (hstream : delivery.payload = stream)
    (hcalls : 2 * delivery.size < calls) (hwhole : 2 * (stream.length + 1) < wholeCalls) :
    session C endpoint limits calls { socket with inbound := delivery } =
        session C endpoint limits wholeCalls { socket with inbound := [.data stream] } ∧
      ((∃ e, upgradeVerdict C endpoint socket.writeErr (stream.take headerEnd) = .error e ∧
          session C endpoint limits calls { socket with inbound := delivery } = .error e) ∨
        upgradeVerdict C endpoint socket.writeErr (stream.take headerEnd) = .ok () ∧
        ∃ e, (decode limits none (stream.drop (headerEnd + 4))).2.failure = some e ∧
          session C endpoint limits calls { socket with inbound := delivery } =
            .ok ((decode limits none (stream.drop (headerEnd + 4))).1, some e)) := by
  subst hstream
  let whole : Script UInt8 ReadError := [.data delivery.payload]
  have hall : whole.payload = delivery.payload := List.append_nil _
  have hsize : 2 * whole.size < wholeCalls := by
    rw [Script.size, hall, show whole.length = 1 from rfl]
    omega
  have hpieces := session_spec C endpoint limits { socket with inbound := delivery }
    hpolite htime hblock hcalls
  have hatOnce := session_spec C endpoint limits { socket with inbound := whole }
    (polite_data _ hblock.ne_nil) (inTime_data _) (hall.symm ▸ hblock) hsize
  simp only [hall] at hatOnce
  cases hverdict : upgradeVerdict C endpoint socket.writeErr (delivery.payload.take headerEnd) with
  | error e =>
    simp only [hverdict] at hpieces hatOnce
    exact ⟨hpieces.trans hatOnce.symm, Or.inl ⟨e, rfl, hpieces⟩⟩
  | ok u =>
    simp only [hverdict] at hpieces hatOnce
    obtain ⟨e, he, hpieces⟩ := hpieces
    obtain ⟨e', he', hatOnce⟩ := hatOnce
    rw [he] at he'
    cases he'
    exact ⟨hpieces.trans hatOnce.symm, Or.inr ⟨rfl, e, he, hpieces⟩⟩

/-- The response and the first byte of a frame, a read that would block, and the rest of the
frame. -/
def splitDelivery : Script UInt8 ReadError :=
  [.data (rfcResponse ++ [0x82]), .fails ⟨⟨.wouldBlock, "would block"⟩, false⟩, .data [2, 104, 105]]

/-- The frame, and then the end of the stream. -/
theorem decode_hi : decode testLimits none [0x82, 2, 104, 105] =
    ([.binary [104, 105]], ⟨some (.io connectionClosed), none, []⟩) := by
  have hnext : nextFrame testLimits none [0x82, 2, 104, 105] =
      .more (some (.binary [104, 105])) none [] := rfl
  rw [decode_more hnext, decode_stop (nextFrame_of_error rfl)]
  rfl

/-- The upgrade is accepted and the frame is read. -/
theorem splitDelivery_eq_whole :
    session rfcCrypto testEndpoint testLimits 1000 { inbound := splitDelivery } =
      session rfcCrypto testEndpoint testLimits 1000
        { inbound := [.data (rfcResponse ++ [0x82, 2, 104, 105])] } ∧
    session rfcCrypto testEndpoint testLimits 1000 { inbound := splitDelivery } =
      .ok ([.binary [104, 105]], some (.io connectionClosed)) := by
  have hlength : rfcResponse.length = 129 := by decide +kernel
  have hpayload : splitDelivery.payload = rfcResponse ++ [0x82, 2, 104, 105] := by
    simp [splitDelivery]
  have hpolite : Polite splitDelivery := by
    constructor
    · simp [Script.NonEmpty, splitDelivery]
    · simp [splitDelivery, isWouldBlock]
  have htime : InTime splitDelivery := by simp [InTime, splitDelivery]
  have hcalls : 2 * splitDelivery.size < 1000 := by
    rw [Script.size, hpayload, List.length_append, hlength]
    decide
  have hwhole : 2 * ((rfcResponse ++ [0x82, 2, 104, 105]).length + 1) < 1000 := by
    rw [List.length_append, hlength]
    decide
  have hblock : HeaderBlock (rfcResponse ++ [0x82, 2, 104, 105]) 125 := rfcResponse_block _
  obtain ⟨hsame, hverdict⟩ := @session_eq_whole _ rfcCrypto testEndpoint testLimits
    { inbound := [] } _ splitDelivery 125 1000 1000 hblock hpolite htime hpayload hcalls hwhole
  have haccepted : upgradeVerdict rfcCrypto testEndpoint none
      ((rfcResponse ++ [0x82, 2, 104, 105]).take 125) = .ok () := by
    rw [List.take_append_of_le_length (by omega), rfcResponse_accepted]
  have hrest : (rfcResponse ++ [0x82, 2, 104, 105]).drop (125 + 4) = [0x82, 2, 104, 105] := by
    rw [show 125 + 4 = rfcResponse.length from hlength.symm, List.drop_left]
  refine ⟨hsame, ?_⟩
  rcases hverdict with ⟨e, herror, -⟩ | ⟨-, e, hfailure, hsession⟩
  · cases haccepted.symm.trans herror
  · rw [hrest, decode_hi] at hfailure hsession
    rw [hsession, ← hfailure]

end WhatsappEsp32.Ws
