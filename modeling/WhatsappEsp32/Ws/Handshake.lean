import WhatsappEsp32.Ws.ReaderSpec

/-!
# What the upgrade does

* `connect_eq_ok`: a client that `connect` returns meets the invariant and is between two frames;
* `handshakeLoop_complete`: the response is found whatever the reads it arrives in;
* `connect_delivery`: the outcome of `connect` depends on the bytes only, and what follows the blank
  line is the first thing the reader sees.
-/

namespace WhatsappEsp32.Ws

open CrashLogic Scripted RustStr RustIo WsClient

variable {A : Arch} {C : Crypto} {endpoint : Endpoint} {limits : Limits A} {socket socket' : WsSocket}
  {response response' stream : Bytes} {headerEnd : ℕ}

theorem length_blankLine : (asBytes "\r\n\r\n").length = 4 := by decide

/-- The response stays below the size at which the loop gives up, and one more read. -/
theorem handshakeLoop_length (fuel : ℕ)
    (h : handshakeLoop fuel socket response = .ok (headerEnd, response', socket'))
    (hlen : response.length < maxHandshakeBytes + 256) :
    response'.length < maxHandshakeBytes + 256 := by
  induction fuel generalizing socket response with
  | zero => cases h
  | succ fuel ih =>
    unfold handshakeLoop at h
    cases hverdict : handshakeVerdict response with
    | some r =>
      rw [hverdict] at h
      cases r with
      | ok headerEnd =>
        cases h
        exact hlen
      | error e => cases h
    | none =>
      -- without a verdict the response is still inside the bound, and a read adds at most 256 bytes
      have hshort : response.length < maxHandshakeBytes := by
        unfold handshakeVerdict at hverdict
        split at hverdict
        · cases hverdict
        · split_ifs at hverdict with hge
          exact not_le.mp hge
      rw [hverdict] at h
      simp only [Socket.read] at h
      rcases socket.inbound.read_cases (show 0 < 256 by decide) with ⟨rest, hread, -, -⟩ |
        ⟨bytes, rest, hread, hne, hle, -⟩ | ⟨e, rest, hread, -, -, -⟩
      · rw [hread] at h
        cases h
      · rw [hread] at h
        cases bytes with
        | nil => exact (hne rfl).elim
        | cons b bytes =>
          refine ih h ?_
          rw [List.length_append]
          omega
      · rw [hread] at h
        simp only at h
        split_ifs at h
        exact ih h hlen

theorem upgraded_eq_ok {key : String} {s : WsClient A}
    (h : upgraded C limits key headerEnd response socket = .ok s) :
    s = { source := ⟨socket, response.drop (headerEnd + 4), 0⟩
          limits := limits
          header := List.replicate maxHeader 0
          headerLen := 0
          incoming := none
          fragments := none } := by
  unfold upgraded at h
  split at h
  · cases h
  · split at h
    · cases h
    · cases h
      rfl

/-- A client that has just been upgraded. -/
structure Upgraded (limits : Limits A) (s : WsClient A) : Prop where
  safe : s.Safe
  fresh : s.Fresh
  fragments : s.fragments = none
  limits : s.limits = limits

theorem upgraded_ok {key : String} {s : WsClient A}
    (h : upgraded C limits key headerEnd response socket = .ok s)
    (hlen : response.length < maxHandshakeBytes + 256) : Upgraded limits s := by
  obtain rfl := upgraded_eq_ok h
  have hfits := A.u32_le
  have hmax : maxHandshakeBytes = 4096 := rfl
  refine ⟨⟨⟨⟨Nat.zero_le _, ?_⟩, List.length_replicate, Nat.zero_le _⟩, ?_, nofun, nofun, nofun⟩,
    ⟨rfl, rfl⟩, rfl, rfl⟩
  · show (response.drop (headerEnd + 4)).length ≤ A.usizeMax
    rw [List.length_drop]
    omega
  · intro b0 b1 tail _
    exact Nat.zero_le _

/-- A client that `connect` returns meets the invariant. -/
theorem connect_eq_ok {s : WsClient A} (h : connect C endpoint limits socket = .ok s) :
    Upgraded limits s := by
  unfold connect at h
  cases hwrite : socket.writeAll (endpoint.request (C.base64 endpoint.nonce)) with
  | error e =>
    simp only [hwrite] at h
    cases h
  | ok socket₁ =>
    simp only [hwrite] at h
    cases hloop : handshakeLoop (socket₁.inbound.size + 1) socket₁ [] with
    | ok r =>
      obtain ⟨headerEnd, response, socket₂⟩ := r
      simp only [hloop] at h
      exact upgraded_ok h (handshakeLoop_length _ hloop (by decide))
    | error e =>
      simp only [hloop] at h
      cases h
    | halted =>
      simp only [hloop] at h
      cases h

/-! ### Independence of the reads -/

/-- The reads before the handshake deadline. -/
def InTime (script : Script UInt8 ReadError) : Prop :=
  ∀ e, Event.fails e ∈ script → e.late = false

/-- A stream that is delivered at once. -/
theorem polite_data (bytes : Bytes) (h : bytes ≠ []) : Polite [.data bytes] := by
  refine ⟨fun b hb => ?_, fun e he => ?_⟩
  · cases List.mem_singleton.mp hb
    exact h
  · cases List.mem_singleton.mp he

theorem inTime_data (bytes : Bytes) : InTime [.data bytes] := by
  intro e he
  cases List.mem_singleton.mp he

/-- The header block of `stream` ends at `headerEnd`, within the size that is accepted. -/
structure HeaderBlock (stream : Bytes) (headerEnd : ℕ) : Prop where
  found : findHeaderEnd stream = some headerEnd
  short : headerEnd + 4 ≤ maxHandshakeBytes

theorem HeaderBlock.verdict (h : HeaderBlock (response ++ response') headerEnd) :
    headerEnd + 4 ≤ response.length ∧ handshakeVerdict response = some (.ok headerEnd) ∨
    response.length < headerEnd + 4 ∧ handshakeVerdict response = none := by
  unfold handshakeVerdict
  by_cases hle : headerEnd + 4 ≤ response.length
  · have hfound : findHeaderEnd response = some headerEnd :=
      position_of_append h.found (by rw [length_blankLine]; exact hle)
    rw [hfound]
    exact Or.inl ⟨hle, rfl⟩
  · have hnone : findHeaderEnd response = none := by
      by_contra hsome
      obtain ⟨i, hi⟩ := Option.ne_none_iff_exists'.mp hsome
      have hsame := position_append hi response'
      have hbound := position_bound hi
      rw [length_blankLine] at hbound
      have heq : some i = some headerEnd := hsame.symm.trans h.found
      cases heq
      omega
    have hshort := h.short
    rw [hnone]
    refine Or.inr ⟨by omega, ?_⟩
    simp only
    rw [if_neg (by omega)]

/-- The response is read up to its blank line, and nothing is lost. -/
theorem handshakeLoop_complete (fuel : ℕ) (socket : WsSocket) (response : Bytes)
    (hpolite : Polite socket.inbound) (htime : InTime socket.inbound)
    (hblock : HeaderBlock (response ++ socket.inbound.payload) headerEnd)
    (hfuel : socket.inbound.size < fuel) :
    ∃ response' socket', handshakeLoop fuel socket response = .ok (headerEnd, response', socket') ∧
      response' ++ socket'.inbound.payload = response ++ socket.inbound.payload ∧
      headerEnd + 4 ≤ response'.length ∧ Polite socket'.inbound ∧
      socket'.inbound.size + response'.length ≤ socket.inbound.size + response.length := by
  induction fuel generalizing socket response with
  | zero => omega
  | succ fuel ih =>
    unfold handshakeLoop
    rcases hblock.verdict with ⟨hle, hverdict⟩ | ⟨hlt, hverdict⟩
    · rw [hverdict]
      exact ⟨response, socket, rfl, rfl, hle, hpolite, le_rfl⟩
    · rw [hverdict]
      simp only [Socket.read]
      rcases socket.inbound.read_cases (show 0 < 256 by decide) with ⟨rest, hread, hrest, hend⟩ |
        ⟨bytes, rest, hread, hne, -, hrest⟩ | ⟨e, rest, hread, hmem, hrest, hless⟩
      · -- the stream cannot end before the blank line
        have hbound := position_bound hblock.found
        rw [length_blankLine, hend hpolite.nonEmpty, List.length_append] at hbound
        simp only [Script.payload_nil, List.length_nil] at hbound
        omega
      · rw [hread]
        cases bytes with
        | nil => exact (hne rfl).elim
        | cons b bytes =>
          simp only
          have hsize := hrest.size
          rw [List.length_cons] at hsize
          rw [hrest.payload, ← List.append_assoc] at hblock ⊢
          obtain ⟨response', socket', hloop, hsame, hle, hpolite', hsize'⟩ :=
            ih { socket with inbound := rest } _ (hpolite.leaves hrest)
              (fun e he => htime e (hrest.fails e he)) hblock (show rest.size < fuel by omega)
          refine ⟨response', socket', hloop, hsame, hle, hpolite', ?_⟩
          simp only [List.length_append, List.length_cons] at hsize' ⊢
          omega
      · rw [hread]
        simp only [hpolite.wouldBlock e hmem, htime e hmem, if_true]
        have hpayload := hrest.payload
        rw [List.nil_append] at hpayload
        rw [hpayload] at hblock ⊢
        obtain ⟨response', socket', hloop, hsame, hle, hpolite', hsize'⟩ :=
          ih { socket with inbound := rest } _ (hpolite.leaves hrest)
            (fun e he => htime e (hrest.fails e he)) hblock (show rest.size < fuel by omega)
        refine ⟨response', socket', hloop, hsame, hle, hpolite', ?_⟩
        simp only at hsize'
        omega

/-- The verdict on an upgrade response, from the bytes before its blank line. -/
def upgradeVerdict (C : Crypto) (endpoint : Endpoint) (writeErr : Option IoError) (head : Bytes) :
    Except IoError Unit :=
  match writeErr with
  | some e => .error e
  | none =>
    match fromUtf8 head with
    | none => .error (protocolError "handshake response is not ASCII")
    | some head => verifyUpgrade C head (C.base64 endpoint.nonce)

/-- What an accepted upgrade leaves: the rest of the stream is still to be read. -/
structure Connected (limits : Limits A) (delivery : Script UInt8 ReadError) (rest : Bytes)
    (s : WsClient A) : Prop extends Upgraded limits s where
  rest : s.source.rest = rest
  polite : Polite s.source.stream.inbound
  size : s.source.size ≤ delivery.size

variable (C endpoint limits) in
/-- The outcome of `connect` is decided by the bytes of the stream. -/
theorem connect_delivery (hpolite : Polite socket.inbound) (htime : InTime socket.inbound)
    (hblock : HeaderBlock socket.inbound.payload headerEnd) :
    match upgradeVerdict C endpoint socket.writeErr (socket.inbound.payload.take headerEnd) with
    | .error e => connect C endpoint limits socket = .error e
    | .ok () => ∃ s, connect C endpoint limits socket = .ok s ∧
        Connected limits socket.inbound (socket.inbound.payload.drop (headerEnd + 4)) s := by
  unfold connect upgradeVerdict Socket.writeAll
  cases hwrite : socket.writeErr with
  | some e => rfl
  | none =>
    simp only
    obtain ⟨response, socket', hloop, hsame, hle, hpolite', hsize⟩ :=
      handshakeLoop_complete (socket.inbound.size + 1) { socket with
        outbound := socket.outbound ++ endpoint.request (C.base64 endpoint.nonce) } []
        hpolite htime hblock (Nat.lt_succ_self _)
    have hlength := handshakeLoop_length _ hloop (by decide)
    simp only [List.nil_append] at hsame
    simp only [List.length_nil, Nat.add_zero] at hsize
    rw [hwrite] at hloop
    simp only [hloop]
    -- the verdict depends on the head alone, and what the loop read beyond it is kept
    have hhead : socket.inbound.payload.take headerEnd = response.take headerEnd := by
      rw [← hsame, List.take_append_of_le_length (by omega)]
    have htail : socket.inbound.payload.drop (headerEnd + 4) =
        response.drop (headerEnd + 4) ++ socket'.inbound.payload := by
      rw [← hsame, List.drop_append_of_le_length hle]
    rw [hhead]
    cases hutf : fromUtf8 (response.take headerEnd) with
    | none => simp only [upgraded, hutf]
    | some head =>
      cases hverify : verifyUpgrade C head (C.base64 endpoint.nonce) with
      | error e => simp only [upgraded, hutf, hverify]
      | ok u =>
        obtain ⟨s, hs⟩ : ∃ s, upgraded C limits (C.base64 endpoint.nonce) headerEnd response
            socket' = .ok s := by
          simp only [upgraded, hutf, hverify]
          exact ⟨_, rfl⟩
        have hup := upgraded_ok hs hlength
        obtain rfl := upgraded_eq_ok hs
        simp only [hverify]
        refine ⟨_, hs, ⟨hup, ?_, ?_, ?_⟩⟩
        · rw [htail]
          rfl
        · exact hpolite'
        · show (List.drop 0 (response.drop (headerEnd + 4))).length + socket'.inbound.size ≤ _
          rw [List.drop_zero, List.length_drop]
          omega

/-! ### The example of RFC 6455 §1.3 -/

/-- A 32-bit target. -/
def esp32 : Arch := ⟨2 ^ 32 - 1, by decide, by decide⟩

/-- The limits of the tests of `ws.rs`. -/
def testLimits : Limits esp32 := ⟨32 * 1024, 32 * 1024, by decide, by decide⟩

/-- The hash and the encodings of the example. -/
def rfcCrypto : Crypto where
  sha1 _ := [0xb3, 0x7a, 0x4f, 0x2c, 0xc0, 0x62, 0x4f, 0x16, 0x90, 0xf6, 0x46, 0x06, 0xcf, 0x38,
    0x59, 0x45, 0xb2, 0xbe, 0xc4, 0xea]
  base64 bytes := if bytes = asBytes "the sample nonce" then "dGhlIHNhbXBsZSBub25jZQ==" else
    "s3pPLMBiTxaQ9kYGzzhZRbK+xOo="

/-- The endpoint of the sample sessions. -/
def testEndpoint : Endpoint :=
  ⟨"example.test", "/ws", "https://example.test", asBytes "the sample nonce"⟩

/-- The response of the server in the example. -/
def rfcResponse : Bytes := asBytes ("HTTP/1.1 101 Switching Protocols\r\nUpgrade: websocket\r\n" ++
  "Connection: Upgrade\r\nSec-WebSocket-Accept: s3pPLMBiTxaQ9kYGzzhZRbK+xOo=\r\n\r\n")

theorem rfcResponse_found : findHeaderEnd rfcResponse = some 125 := by decide +kernel

theorem rfcResponse_block (rest : Bytes) : HeaderBlock (rfcResponse ++ rest) 125 :=
  ⟨position_append rfcResponse_found rest, by decide⟩

theorem rfcResponse_accepted :
    upgradeVerdict rfcCrypto testEndpoint none (rfcResponse.take 125) = .ok () := by
  have haccepted : (match upgradeVerdict rfcCrypto testEndpoint none (rfcResponse.take 125) with
      | .ok _ => true
      | .error _ => false) = true := by decide +kernel
  revert haccepted
  cases upgradeVerdict rfcCrypto testEndpoint none (rfcResponse.take 125) with
  | ok u => exact fun _ => rfl
  | error e => exact nofun

/-- The example succeeds with anything behind the response, whatever the reads. -/
theorem rfcResponse_connects {script : Script UInt8 ReadError} (rest : Bytes)
    (hpolite : Polite script) (htime : InTime script)
    (hpayload : script.payload = rfcResponse ++ rest) :
    ∃ s, connect rfcCrypto testEndpoint testLimits { inbound := script } = .ok s ∧
      Connected testLimits script rest s := by
  have hblock := rfcResponse_block rest
  have hlength : rfcResponse.length = 129 := by decide +kernel
  rw [← hpayload] at hblock
  have hconnect := connect_delivery rfcCrypto testEndpoint testLimits
    (show Polite (Socket.mk script [] none).inbound from hpolite) htime hblock
  simp only [hpayload] at hconnect
  rw [List.take_append_of_le_length (by omega), rfcResponse_accepted,
    show 125 + 4 = rfcResponse.length from hlength.symm, List.drop_left] at hconnect
  exact hconnect

end WhatsappEsp32.Ws
