import WhatsappEsp32.Lib.RustIo
import WhatsappEsp32.Storage.Record

/-!
# WebSocket frames

The parts of `ws.rs` that do no input or output: the checks of a frame header in the order in which
`read_header` makes them, what `dispatch` turns a complete frame into, and `parse_close`.
-/

namespace WhatsappEsp32.Ws

open RustIo

/-- `protocol_error`. -/
def protocolError (what : String) : IoError := ⟨.invalidData, s!"websocket: {what}"⟩

/-- `is_would_block`: the errors after which a read is tried again. -/
def isWouldBlock (e : IoError) : Bool :=
  match e.kind with
  | .wouldBlock | .timedOut | .interrupted => true
  | _ => false

/-- What a read at the end of the stream answers. -/
def connectionClosed : IoError := ⟨.unexpectedEof, "websocket: connection closed"⟩

/-- `MAX_CONTROL_PAYLOAD`. -/
def maxControlPayload : ℕ := 125

/-- The longest header of a frame from a server: no mask. -/
def maxHeader : ℕ := 10

/-- `OP_CONTINUATION`. -/
def opContinuation : UInt8 := 0x0

/-- `OP_TEXT`. -/
def opText : UInt8 := 0x1

/-- `OP_BINARY`. -/
def opBinary : UInt8 := 0x2

/-- `OP_CLOSE`. -/
def opClose : UInt8 := 0x8

/-- `OP_PING`. -/
def opPing : UInt8 := 0x9

/-- `OP_PONG`. -/
def opPong : UInt8 := 0xA

/-- Upper bounds a peer can make this side allocate towards, as `usize` values. -/
structure Limits (A : Arch) where
  maxFrameSize : ℕ
  maxMessageSize : ℕ
  maxFrameSize_le : maxFrameSize ≤ A.usizeMax
  maxMessageSize_le : maxMessageSize ≤ A.usizeMax

/-- One complete frame, or one reassembled message, from the server. -/
inductive Frame
  | binary (data : Bytes)
  | text (data : Bytes)
  | ping (payload : Bytes)
  | pong (payload : Bytes)
  | close (status : Option (ℕ × String))
  deriving DecidableEq

/-- A fragmented message being reassembled across continuation frames. -/
structure Partial where
  opcode : UInt8
  buf : Bytes

/-- A frame whose header has been parsed and whose payload is still arriving. -/
structure Incoming where
  fin : Bool
  opcode : UInt8
  payload : Bytes
  filled : ℕ

/-- Big-endian bytes as a number. -/
def fromBeBytes (bytes : Bytes) : ℕ := bytes.foldl (fun n b => n * 256 + b.toNat) 0

/-- The checks on the first two bytes of a header. -/
def checkStart (b0 b1 : UInt8) : Except IoError Unit :=
  if b0 &&& 0x70 ≠ 0 then
    .error (protocolError "reserved bits set")
  else if b1 &&& 0x80 ≠ 0 then
    .error (protocolError "server frame is masked")
  else
    .ok ()

/-- The seven-bit length. -/
def len7 (b1 : UInt8) : ℕ := (b1 &&& 0x7F).toNat

/-- The length of a header that starts with these two bytes. -/
def headerTotal (b1 : UInt8) : ℕ :=
  if len7 b1 = 126 then 4 else if len7 b1 = 127 then 10 else 2

variable (A : Arch)

/-- The payload length declared in a complete header.  `none` stands for the panic of
`expect("8 bytes")`. -/
def declaredLen (b1 : UInt8) (header : Bytes) : Option (Except IoError ℕ) :=
  if len7 b1 = 126 then
    some (.ok (fromBeBytes ((header.drop 2).take 2)))
  else if len7 b1 = 127 then
    let bytes := (header.drop 2).take 8
    if bytes.length = 8 then
      let v := fromBeBytes bytes
      some (if v ≤ A.usizeMax then .ok v else .error (protocolError "frame length overflows usize"))
    else
      none
  else
    some (.ok (len7 b1))

variable {A} (limits : Limits A)

/-- The checks on a complete header, before its payload is allocated. -/
def checkFrame (fragments : Option Partial) (fin : Bool) (opcode : UInt8) (len : ℕ) :
    Except IoError Unit :=
  if opcode = opClose ∨ opcode = opPing ∨ opcode = opPong then
    if !fin then
      .error (protocolError "fragmented control frame")
    else if len > maxControlPayload then
      .error (protocolError "control frame payload over 125 bytes")
    else
      .ok ()
  else if opcode = opContinuation then
    match fragments with
    | none => .error (protocolError "continuation frame without a message")
    | some fragment =>
      if saturatingAdd A fragment.buf.length len > limits.maxMessageSize then
        .error (protocolError "fragmented message over the size limit")
      else if len > limits.maxFrameSize then
        .error (protocolError "frame over the size limit")
      else
        .ok ()
  else if opcode = opText ∨ opcode = opBinary then
    if fragments.isSome then
      .error (protocolError "new data frame inside a fragmented message")
    else if len > limits.maxFrameSize then
      .error (protocolError "frame over the size limit")
    else if !fin ∧ len > limits.maxMessageSize then
      .error (protocolError "fragmented message over the size limit")
    else
      .ok ()
  else
    .error (protocolError "reserved opcode")

/-- §5.5.1: an empty body, or a 2-byte code followed by a UTF-8 reason. -/
def parseClose (payload : Bytes) : Except IoError (Option (ℕ × String)) :=
  match payload with
  | [] => .ok none
  | [_] => .error (protocolError "close frame with a 1-byte payload")
  | c0 :: c1 :: reason =>
    match fromUtf8 reason with
    | none => .error (protocolError "close reason is not UTF-8")
    | some reason => .ok (some (fromBeBytes [c0, c1], reason))

/-- Why an operation of the reader ends without a result: with an error, or because a buffer would
be larger than any buffer can be. -/
inductive Failure
  | io (e : IoError)
  | capacityOverflow
  deriving DecidableEq

/-- What a complete frame becomes: a frame for the caller, or nothing yet, with the fragmented
message in progress afterwards. -/
inductive Dispatched
  | frame (frame : Frame) (fragments : Option Partial)
  | folded (fragments : Option Partial)
  | failed (e : Failure) (fragments : Option Partial)
  | panicked

/-- The message a finished reassembly gives. -/
def messageFrame (opcode : UInt8) (data : Bytes) : Frame :=
  if opcode = opText then .text data else .binary data

variable (A) in
/-- `dispatch`, on the fragmented message in progress.  The branches the code marks unreachable
panic. -/
def dispatch (fragments : Option Partial) (fin : Bool) (opcode : UInt8) (payload : Bytes) :
    Dispatched :=
  if opcode = opPing then
    .frame (.ping payload) fragments
  else if opcode = opPong then
    .frame (.pong payload) fragments
  else if opcode = opClose then
    match parseClose payload with
    | .error e => .failed (.io e) fragments
    | .ok status => .frame (.close status) fragments
  else if opcode = opContinuation then
    match fragments with
    | none => .panicked
    | some fragment =>
      let buf := fragment.buf ++ payload
      if buf.length > A.isizeMax then
        .failed .capacityOverflow none
      else if fin then
        .frame (messageFrame fragment.opcode buf) none
      else
        .folded (some { fragment with buf := buf })
  else if opcode = opText ∨ opcode = opBinary then
    if fin then
      .frame (messageFrame opcode payload) fragments
    else
      .folded (some ⟨opcode, payload⟩)
  else
    .panicked

end WhatsappEsp32.Ws
