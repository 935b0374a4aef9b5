import WhatsappEsp32.Lib.RustStr
import WhatsappEsp32.Ws.Frame

/-!
# The WebSocket client

`WsClient` over a scripted stream: the upgrade (`connect`, `verify_upgrade`) and the resumable
reader (`fill`, `fill_into`, `read_header`, `read_frame`).  A slice out of bounds, an addition that
overflows and a failed `expect` stop the program.  Loops that wait for input carry fuel, and running
out of it stops the program as well.
-/

namespace WhatsappEsp32.Ws

open CrashLogic Scripted RustStr RustIo

/-! ### The stream -/

/-- An error of a read, and whether the handshake deadline has passed by then. -/
structure ReadError where
  error : IoError
  late : Bool := false

/-- The connected stream of a client. -/
abbrev WsSocket := Socket ReadError

/-! ### Reading bytes -/

/-- What `fill` reads from: the handshake leftover, then the stream. -/
structure Source where
  stream : WsSocket
  pending : Bytes
  pendingPos : ℕ

/-- Reads from the source; being stopped is a panic. -/
abbrev SourceM := Prog Source IoError

variable (A : Arch) {ε : Type}

/-- An addition of `usize` values, which panics when it overflows. -/
def checkedAdd {σ : Type} (a b : ℕ) : Prog σ ε ℕ :=
  if a + b ≤ A.usizeMax then pure (a + b) else .halt

/-- `buf[pos..pos + bytes.len()].copy_from_slice(bytes)`. -/
def writeAt (buf : Bytes) (pos : ℕ) (bytes : Bytes) : Bytes :=
  buf.take pos ++ bytes ++ buf.drop (pos + bytes.length)

/-- The bytes that are left to read. -/
def Source.rest (s : Source) : Bytes := s.pending.drop s.pendingPos ++ s.stream.inbound.payload

/-- Read from the stream; no bytes mean that the peer has closed. -/
def readStream (want : ℕ) : SourceM Bytes := fun s =>
  match s.stream.read want with
  | (.ok [], stream) => (.error connectionClosed, { s with stream := stream })
  | (.ok bytes, stream) => (.ok bytes, { s with stream := stream })
  | (.error e, stream) => (.error e.error, { s with stream := stream })

/-- Read bytes into a buffer of length `want`: the handshake leftover first, then the stream. -/
def fill (want : ℕ) : SourceM Bytes := do
  let s ← Prog.get
  if s.pendingPos > s.pending.length then
    .halt
  else
    let left := s.pending.drop s.pendingPos
    if left = [] then
      readStream want
    else
      let n := min left.length want
      let pos ← checkedAdd A s.pendingPos n
      Prog.modify fun s => { s with pendingPos := pos }
      pure (left.take n)

/-- Fill `payload[filled..]` until full or an error; the progress is returned in either case. -/
def fillInto : ℕ → Bytes → ℕ → Prog Source ε (Except IoError Unit × Bytes × ℕ)
  | 0, payload, filled => if filled < payload.length then .halt else pure (.ok (), payload, filled)
  | fuel + 1, payload, filled =>
    if filled < payload.length then do
      match ← (fill A (payload.length - filled)).attempt with
      | .error e => pure (.error e, payload, filled)
      | .ok bytes =>
        let filled' ← checkedAdd A filled bytes.length
        fillInto fuel (writeAt payload filled bytes) filled'
    else
      pure (.ok (), payload, filled)

/-! ### The reader -/

/-- `WsClient`: the source, the header that is being read, the frame that is arriving, and the
fragments of a message. -/
structure WsClient where
  source : Source
  limits : Limits A
  header : Bytes
  headerLen : ℕ
  incoming : Option Incoming
  fragments : Option Partial

/-- Operations of the reader; being stopped is a panic. -/
abbrev ReaderM := Prog (WsClient A) Failure

variable {A} {α : Type}

namespace WsClient

/-- Run a read on the source of the client. -/
def onSource (p : Prog Source ε α) : Prog (WsClient A) ε α :=
  Prog.zoom WsClient.source (fun s source => { s with source := source }) p

/-- The error of a read: `None` is reported for would-block, any other error is passed on. -/
def blocked (e : IoError) : ReaderM A Bool := if isWouldBlock e then pure false else .throw (.io e)

/-- One read into `header[header_len..total]`.  `false` means would-block. -/
def readIntoHeader (total : ℕ) : ReaderM A Bool := do
  let s ← Prog.get
  if s.header.length < total then
    .halt
  else
    match ← (onSource (fill A (total - s.headerLen))).attempt with
    | .error e => blocked e
    | .ok bytes =>
      let headerLen ← checkedAdd A s.headerLen bytes.length
      Prog.modify fun s =>
        { s with header := writeAt s.header s.headerLen bytes, headerLen := headerLen }
      pure true

/-- Read the header up to `total` bytes.  `false` means would-block. -/
def fillHeader (total : ℕ) : ℕ → ReaderM A Bool
  | 0 => do
    let s ← Prog.get
    if s.headerLen < total then .halt else pure true
  | fuel + 1 => do
    let s ← Prog.get
    if s.headerLen < total then
      let progress ← readIntoHeader total
      if progress then fillHeader total fuel else pure false
    else
      pure true

/-- The part of `read_header` after a complete header has been read. -/
def finishHeader (b0 b1 : UInt8) : ReaderM A (Option Incoming) := do
  Prog.modify fun s => { s with headerLen := 0 }
  let s ← Prog.get
  match declaredLen A b1 s.header with
  | none => .halt
  | some (.error e) => .throw (.io e)
  | some (.ok len) =>
    let fin : Bool := b0 &&& 0x80 ≠ 0
    let opcode := b0 &&& 0x0F
    match checkFrame s.limits s.fragments fin opcode len with
    | .error e => .throw (.io e)
    | .ok () =>
      if len > A.isizeMax then
        .throw .capacityOverflow
      else
        pure (some ⟨fin, opcode, List.replicate len 0, 0⟩)

/-- The part of `read_header` after the first two bytes. -/
def continueHeader : ReaderM A (Option Incoming) := do
  let s ← Prog.get
  match s.header with
  | b0 :: b1 :: _ =>
    match checkStart b0 b1 with
    | .error e => .throw (.io e)
    | .ok () => do
      let complete ← fillHeader (headerTotal b1) (headerTotal b1)
      if complete then finishHeader b0 b1 else pure none
  | _ => .halt

/-- Accumulate and parse a frame header.  `none` means would-block. -/
def readHeader : ReaderM A (Option Incoming) := do
  let started ← fillHeader 2 2
  if started then continueHeader else pure none

/-- Make sure that a frame is being received.  `false` means would-block. -/
def ensureIncoming : ReaderM A Bool := do
  let s ← Prog.get
  if s.incoming.isNone then
    match ← readHeader with
    | some incoming => do
      Prog.modify fun s => { s with incoming := some incoming }
      pure true
    | none => pure false
  else
    pure true

/-- Fill the payload of the frame being received.  `false` means would-block. -/
def fillIncoming : ReaderM A Bool := do
  let s ← Prog.get
  match s.incoming with
  | none => .halt
  | some inc =>
    if inc.filled < inc.payload.length then
      let (outcome, payload, filled) ←
        onSource (fillInto A (inc.payload.length - inc.filled) inc.payload inc.filled)
      Prog.modify fun s =>
        { s with incoming := some { inc with payload := payload, filled := filled } }
      match outcome with
      | .ok () => pure (decide (filled = payload.length))
      | .error e => blocked e
    else
      pure (decide (inc.filled = inc.payload.length))

/-- Take the complete frame and dispatch it.  `none` means that it was folded into a message. -/
def takeIncoming : ReaderM A (Option Frame) := do
  let s ← Prog.get
  match s.incoming with
  | none => .halt
  | some inc => do
    Prog.modify fun s => { s with incoming := none }
    match dispatch A s.fragments inc.fin inc.opcode inc.payload with
    | .frame frame fragments => do
      Prog.modify fun s => { s with fragments := fragments }
      pure (some frame)
    | .folded fragments => do
      Prog.modify fun s => { s with fragments := fragments }
      pure none
    | .failed e fragments => do
      Prog.modify fun s => { s with fragments := fragments }
      .throw e
    | .panicked => .halt

/-- The loop of `read_frame`. -/
def frameLoop : ℕ → ReaderM A (Option Frame)
  | 0 => .halt
  | fuel + 1 => do
    let started ← ensureIncoming
    if started then
      let complete ← fillIncoming
      if complete then
        match ← takeIncoming with
        | some frame => pure (some frame)
        | none => frameLoop fuel
      else
        pure none
    else
      pure none

/-- Make progress on the next frame; `none` means would-block.  Every iteration but the first reads
at least one byte. -/
def readFrame : ReaderM A (Option Frame) := fun s => frameLoop (s.source.rest.length + 2) s

end WsClient

/-! ### The upgrade -/

/-- The GUID that the accept value is made with. -/
def acceptGuid : String := "258EAFA5-E914-47DA-95CA-C5AB0DC85B11"

/-- `MAX_HANDSHAKE_BYTES`. -/
def maxHandshakeBytes : ℕ := 4 * 1024

/-- The hash and the encoding of the `sha1` and `base64` crates. -/
structure Crypto where
  sha1 : Bytes → Bytes
  base64 : Bytes → String

/-- The value the server must echo back for `key` (§4.2.2 step 5.4). -/
def expectedAccept (C : Crypto) (key : String) : String :=
  C.base64 (C.sha1 (asBytes key ++ asBytes acceptGuid))

/-- What the headers of the response have said so far. -/
structure UpgradeHeaders where
  upgradeOk : Bool := false
  connectionOk : Bool := false
  accept : Option Str := none

/-- One header line of the response. -/
def scanHeader (h : UpgradeHeaders) (line : Str) : UpgradeHeaders :=
  match splitOnce ':' line with
  | none => h
  | some (name, value) =>
    let value := trim value
    if eqIgnoreAsciiCase name "upgrade".toList then
      { h with upgradeOk := eqIgnoreAsciiCase value "websocket".toList }
    else if eqIgnoreAsciiCase name "connection".toList then
      { h with connectionOk :=
          (value.splitOn ',').any fun token => eqIgnoreAsciiCase (trim token) "upgrade".toList }
    else if eqIgnoreAsciiCase name "sec-websocket-accept".toList then
      { h with accept := some value }
    else
      h

/-- Check the status line and the three headers the upgrade depends on. -/
def verifyUpgrade (C : Crypto) (head key : String) : Except IoError Unit :=
  let lines := split ['\r', '\n'] head.toList
  let status := lines.headD []
  match ((stripPrefix "HTTP/1.1 ".toList status).or
      (stripPrefix "HTTP/1.0 ".toList status)).bind (getTo · 3) with
  | none => .error (protocolError "malformed status line")
  | some code =>
    if code ≠ "101".toList then
      let line := String.ofList status
      .error (protocolError s!"upgrade refused: {line}")
    else
      let headers := lines.tail.foldl scanHeader {}
      if !headers.upgradeOk then
        .error (protocolError "missing `Upgrade: websocket`")
      else if !headers.connectionOk then
        .error (protocolError "missing `Connection: Upgrade`")
      else
        match headers.accept with
        | none => .error (protocolError "missing Sec-WebSocket-Accept")
        | some got =>
          if got = (expectedAccept C key).toList then
            .ok ()
          else
            .error (protocolError "Sec-WebSocket-Accept does not match")

/-- `find_header_end`: where the empty line starts. -/
def findHeaderEnd (buf : Bytes) : Option ℕ := position (asBytes "\r\n\r\n") buf

/-- Whether the handshake loop goes on with this response. -/
def handshakeVerdict (response : Bytes) : Option (Except IoError ℕ) :=
  match findHeaderEnd response with
  | some headerEnd => some (.ok headerEnd)
  | none =>
    if response.length ≥ maxHandshakeBytes then
      some (.error (protocolError "handshake response too large"))
    else
      none

/-- Read the response up to its blank line. -/
def handshakeLoop : ℕ → WsSocket → Bytes → Outcome IoError (ℕ × Bytes × WsSocket)
  | 0, _, _ => .halted
  | fuel + 1, socket, response =>
    match handshakeVerdict response with
    | some (.ok headerEnd) => .ok (headerEnd, response, socket)
    | some (.error e) => .error e
    | none =>
      match socket.read 256 with
      | (.ok [], _) => .error ⟨.unexpectedEof, "websocket: connection closed during handshake"⟩
      | (.ok bytes, socket) => handshakeLoop fuel socket (response ++ bytes)
      | (.error e, socket) =>
        if isWouldBlock e.error then
          if e.late then
            .error ⟨.timedOut, "websocket: handshake timed out"⟩
          else
            handshakeLoop fuel socket response
        else
          .error e.error

/-- Where to connect to, and the random bytes of the key. -/
structure Endpoint where
  host : String
  path : String
  origin : String
  nonce : Bytes

/-- The upgrade request. -/
def Endpoint.request (endpoint : Endpoint) (key : String) : Bytes :=
  let path := endpoint.path
  let host := endpoint.host
  let origin := endpoint.origin
  asBytes (s!"GET {path} HTTP/1.1\r\nHost: {host}\r\nUpgrade: websocket\r\n" ++
    s!"Connection: Upgrade\r\nSec-WebSocket-Key: {key}\r\nSec-WebSocket-Version: 13\r\n" ++
    s!"Origin: {origin}\r\n\r\n")

/-- A response that was read up to its blank line: verify it and keep what came after it. -/
def upgraded (C : Crypto) (limits : Limits A) (key : String) (headerEnd : ℕ) (response : Bytes)
    (socket : WsSocket) : Outcome IoError (WsClient A) :=
  match fromUtf8 (response.take headerEnd) with
  | none => .error (protocolError "handshake response is not ASCII")
  | some head =>
    match verifyUpgrade C head key with
    | .error e => .error e
    | .ok () => .ok
      { source := ⟨socket, response.drop (headerEnd + 4), 0⟩
        limits := limits
        header := List.replicate maxHeader 0
        headerLen := 0
        incoming := none
        fragments := none }

/-- Perform the HTTP upgrade on an already-connected stream. -/
def WsClient.connect (C : Crypto) (endpoint : Endpoint) (limits : Limits A) (socket : WsSocket) :
    Outcome IoError (WsClient A) :=
  let key := C.base64 endpoint.nonce
  match socket.writeAll (endpoint.request key) with
  | .error e => .error e
  | .ok socket =>
    match handshakeLoop (socket.inbound.size + 1) socket [] with
    | .ok (headerEnd, response, socket) => upgraded C limits key headerEnd response socket
    | .error e => .error e
    | .halted => .halted

end WhatsappEsp32.Ws
