import WhatsappEsp32.Lib.RustStr

/-!
# The device status

What the dashboard shows: the connection, the account, the QR code, the linking code and the last
messages.

* `PairCodeState`, `DeviceStatus` and its methods;
* `toJsonAuthenticated`, `messagesJson`: what a request gets to see.

Instants and durations are in nanoseconds.
-/

namespace WhatsappEsp32

open RustStr

/-- A JSON value, before it is printed. -/
inductive Json
  | null
  | bool (b : Bool)
  | num (n : ℤ)
  | str (s : String)
  | arr (elements : List Json)
  | obj (fields : List (String × Json))

/-- `Option<String>` as `serde_json` writes it. -/
def Json.opt : Option String → Json
  | none => .null
  | some s => .str s

/-- A reading of the monotonic clock, in nanoseconds. -/
abbrev Instant := ℕ

/-- `PairCodeState`: what the dashboard shows of a pairing code. -/
inductive PairCodeState
  | idle
  | pending (requestId : UInt32)
  | ready (code : String) (expiresAt : Instant)
  | error (message : String)
  deriving DecidableEq

/-- `MessageLogEntry`: one line of the message log. -/
structure MessageLogEntry where
  id : String
  chat : String
  sender : String
  text : Option String
  timestamp : ℤ
  fromMe : Bool
  deriving DecidableEq

/-- `DeviceStatus`, behind its lock: what the dashboard shows of the device. -/
structure DeviceStatus where
  qrCode : Option String
  connected : Bool
  pn : Option String
  lid : Option String
  pairCode : PairCodeState
  nextPairCodeRequest : UInt32
  messages : List MessageLogEntry
  deriving DecidableEq

/-- `MAX_LOGGED_TEXT_BYTES`. -/
def maxLoggedTextBytes : ℕ := 256

/-- `MESSAGE_LOG_CAPACITY`. -/
def messageLogCapacity : ℕ := 16

/-- The preview of a text that is too long: as many whole characters as leave room for the
ellipsis. -/
def preview (text : String) : String :=
  if text.utf8ByteSize > maxLoggedTextBytes then
    let budget := maxLoggedTextBytes - '…'.utf8Size
    let stop := ((List.range (budget + 1)).reverse.find? fun i =>
      (getTo text.toList i).isSome).getD 0
    String.ofList (((getTo text.toList stop).getD text.toList) ++ ['…'])
  else text

namespace DeviceStatus

/-- Nothing is known yet, and ids of pairing codes start at 1. -/
def new : DeviceStatus := ⟨none, false, none, none, .idle, 1, []⟩

/-- A QR code is shown, so the device is not connected. -/
def setQrCode (s : DeviceStatus) (code : String) : DeviceStatus :=
  { s with qrCode := some code, connected := false }

/-- The QR code is not valid any more. -/
def clearQrCode (s : DeviceStatus) : DeviceStatus := { s with qrCode := none }

/-- The device is linked: neither a QR code nor a pairing code is needed. -/
def setConnected (s : DeviceStatus) (pn lid : Option String) : DeviceStatus :=
  { s with qrCode := none, connected := true, pn, lid, pairCode := .idle }

/-- The connection is lost, the account stays. -/
def setDisconnected (s : DeviceStatus) : DeviceStatus := { s with connected := false }

/-- The account is gone, and its messages with it. -/
def setLoggedOut (s : DeviceStatus) : DeviceStatus :=
  { s with connected := false, pn := none, lid := none, messages := [] }

/-- Reserve an attempt to link by phone number. -/
def beginPairCode (s : DeviceStatus) (now : Instant) : Except String UInt32 × DeviceStatus :=
  let reserve : Except String UInt32 × DeviceStatus :=
    (.ok s.nextPairCodeRequest,
      { s with
        nextPairCodeRequest := s.nextPairCodeRequest + 1
        pairCode := .pending s.nextPairCodeRequest })
  match s.pairCode with
  | .pending _ => (.error "A linking code is being generated", s)
  | .ready _ expiresAt =>
    if expiresAt > now then (.error "A linking code is already active", s) else reserve
  | .idle => reserve
  | .error _ => reserve

/-- Whether the attempt `wanted` is the pending one. -/
def pairCodeRequestIs (state : PairCodeState) (wanted : UInt32) : Bool :=
  match state with
  | .pending requestId => requestId = wanted
  | _ => false

/-- The code of the pending attempt; one of an older attempt is ignored. -/
def completePairCode (s : DeviceStatus) (now : Instant) (requestId : UInt32) (code : String)
    (validFor : ℕ) : DeviceStatus :=
  if pairCodeRequestIs s.pairCode requestId then
    { s with pairCode := .ready code (now + validFor) }
  else s

/-- The failure of the pending attempt; one of an older attempt is ignored. -/
def failPairCode (s : DeviceStatus) (requestId : UInt32) (message : String) : DeviceStatus :=
  if pairCodeRequestIs s.pairCode requestId then { s with pairCode := .error message } else s

/-- A message joins the log with its text cut short, and pushes the oldest one out of a full log. -/
def recordMessage (s : DeviceStatus) (entry : MessageLogEntry) : DeviceStatus :=
  let entry := { entry with text := entry.text.map preview }
  let messages := if s.messages.length = messageLogCapacity then s.messages.tail else s.messages
  { s with messages := messages ++ [entry] }

/-! ### What is shown -/

/-- The linking code, for whoever has the token. -/
def pairCodeJson (pairCode : PairCodeState) (now : Instant) : Json :=
  match pairCode with
  | .idle => .obj [("state", .str "idle")]
  | .pending _ => .obj [("state", .str "pending")]
  | .ready code expiresAt =>
    let remaining := expiresAt - now
    if remaining = 0 then .obj [("state", .str "expired")]
    else .obj [("state", .str "ready"), ("code", .str code),
      ("expires_in_seconds", .num (remaining / 1000000000 : ℕ))]
  | .error message => .obj [("state", .str "error"), ("message", .str message)]

/-- `/device`: without the token the codes and the account are left out. -/
def toJsonAuthenticated (s : DeviceStatus) (now : Instant) (authenticated : Bool) : Json :=
  let pairCode := if !authenticated then .obj [("state", .str "redacted")]
    else pairCodeJson s.pairCode now
  .obj [("qr_code", if authenticated then .opt s.qrCode else .null),
    ("connected", .bool s.connected),
    ("pn", if authenticated then .opt s.pn else .null),
    ("lid", if authenticated then .opt s.lid else .null),
    ("pair_code", pairCode)]

/-- The entry as `/messages` lists it. -/
def MessageLogEntry.toJson (entry : MessageLogEntry) : Json :=
  .obj [("id", .str entry.id), ("chat", .str entry.chat), ("sender", .str entry.sender),
    ("text", .opt entry.text), ("timestamp", .num entry.timestamp), ("from_me", .bool entry.fromMe)]

/-- The body of `/messages`. -/
def messagesJson (s : DeviceStatus) : Json :=
  .obj [("count", .num s.messages.length),
    ("messages", .arr (s.messages.map MessageLogEntry.toJson))]

end DeviceStatus

end WhatsappEsp32
