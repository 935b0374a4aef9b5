import WhatsappEsp32.Admin.DeviceStatus
import WhatsappEsp32.Admin.Maintenance

/-!
# The admin server

The routes of the dashboard, each with the checks that its closure makes by hand, on the state of
the whole firmware: the store, the device status, the maintenance coordinator, the client and the
queue of the executor.

* `nvsString`, `adminToken`, `AdminAuth.check`: where the token comes from and how it is compared;
* `Firmware`, `HandlerM`: what a handler works on; it returns its response, or stops early with
  one, or takes the firmware down;
* `Route`, `routes`, `handle`: the registered routes;
* `serveAll`: requests that come while the device goes on by itself.

Third-party parts are fields of `Server`: the JSON printer and parser, the parser of addresses, and
what the HTTP server answers when no route matches.
-/

namespace WhatsappEsp32

open CrashLogic

namespace Admin

/-! ### The token -/

/-- Why a read of the default NVS partition fails. -/
inductive NvsError
  | notFound
  | other (message : String)

/-- A provisioned string: `opened` and `value` say how opening the namespace and reading the key
went.  An empty string counts as unset. -/
def nvsString (key : String) (opened : Except NvsError Unit)
    (value : Except NvsError (Option String)) : Except String (Option String) :=
  match opened with
  | .error .notFound => .ok none
  | .error (.other e) => .error ("Failed to open NVS namespace 'wa': " ++ e)
  | .ok () =>
    match value with
    | .ok (some text) => if text ≠ "" then .ok (some text) else .ok none
    | .ok none => .ok none
    | .error .notFound => .ok none
    | .error (.other e) => .error ("Failed to read '" ++ key ++ "' from NVS: " ++ e)

/-- The token of `main`: the provisioned one, else the one of the build. -/
def adminToken (opened : Except NvsError Unit) (value : Except NvsError (Option String))
    (defaultAdminToken : String) : Except String (Option String) :=
  match nvsString "admin_token" opened value with
  | .ok (some token) => .ok (some token)
  | .ok none => .ok (if defaultAdminToken ≠ "" then some defaultAdminToken else none)
  | .error e => .error e

/-- A configured token is not empty. -/
theorem adminToken_ne_empty {opened : Except NvsError Unit}
    {value : Except NvsError (Option String)} {defaultAdminToken token : String}
    (h : adminToken opened value defaultAdminToken = .ok (some token)) : token ≠ "" := by
  unfold adminToken nvsString at h
  grind

/-! ### Requests and responses -/

/-- The method of a request. -/
inductive Method
  | get
  | post
  | delete
  | other (name : String)
  deriving DecidableEq

/-- A request: `header` looks a header up by its lower-case name, `body` is what the client sends
before it stops. -/
structure Request where
  method : Method
  path : String
  header : String → Option String
  contentLen : Option UInt64
  body : Bytes

/-- The status, the headers and the body of an answer. -/
structure Response where
  status : ℕ
  headers : List (String × String)
  body : Bytes

/-- The text of an object whose fields are strings that need no escapes. -/
def objectText (fields : List (String × String)) : String :=
  "\x7b" ++ ",".intercalate (fields.map fun f => "\"" ++ f.1 ++ "\":\"" ++ f.2 ++ "\"") ++ "\x7d"

/-- `json_response_status`: JSON that no cache keeps. -/
def jsonResponseStatus (status : ℕ) (body : String) : Response :=
  ⟨status, [("Content-Type", "application/json"), ("Cache-Control", "no-store")], asBytes body⟩

/-- `json_response`, with status 200. -/
def jsonResponse (body : String) : Response := jsonResponseStatus 200 body

/-- An error whose text the source spells out. -/
def failed (status : ℕ) (message : String) : Response :=
  jsonResponseStatus status (objectText [("error", message)])

/-- The header that carries the token. -/
def tokenHeader : String := "x-admin-token"

/-- `AdminAuth`: the token, if one is configured. -/
structure AdminAuth where
  token : Option String

/-- The status and body for whoever does not have the token. -/
def unauthorized : ℕ × String :=
  (401, objectText [("error", "A valid X-Admin-Token header is required")])

/-- Constant time for the length it does compare: the differences are gathered, not returned on. -/
def AdminAuth.check (auth : AdminAuth) (req : Request) : Except (ℕ × String) Unit :=
  match auth.token with
  | none => .ok ()
  | some expected =>
    let provided := asBytes ((req.header tokenHeader).getD "")
    let expected := asBytes expected
    if provided.length = expected.length ∧
        (provided.zip expected).foldl (fun acc (a, b) => acc ||| (a ^^^ b)) (0 : UInt8) = 0 then
      .ok ()
    else
      .error unauthorized

/-! ### The firmware -/

/-- A client of the SDK; `id` tells it from the clients before and after it. -/
structure Client where
  id : ℕ
  isLoggedIn : Bool

/-- The tasks that handlers give to the executor. -/
inductive Job (Jid : Type)
  /-- Send a text, unless the handler has stopped waiting for it. -/
  | send (client : Client) (jid : Jid) (text : String) (abandoned : Bool)
  | pairCode (client : Client) (requestId : UInt32) (phoneNumber : String)
  | runMaintenance

/-- What the handlers read and change. -/
structure Firmware (Device SyncKey Jid : Type) where
  store : NvsStore Device SyncKey
  status : DeviceStatus
  maintenance : MaintenanceState
  activeClient : Option Client
  queue : List (Job Jid)

/-- What the handler closures have captured. -/
structure Server (Device SyncKey Jid : Type) where
  platform : Platform Device SyncKey
  auth : AdminAuth
  /-- Without PSRAM there is a memory gate: whether its timer could be allocated. -/
  admission : Option Bool
  dashboardHtml : String
  qrcodeJs : Bytes
  print : Json → String
  parse : Bytes → Option Json
  parseJid : String → Option Jid
  /-- The answer of the HTTP server itself. -/
  unmatched : Request → Response

/-- What a handler finds out while it runs. -/
structure Moment where
  now : Instant
  heapFree : ℕ
  heapInternal : ℕ
  systemMetricsJson : String
  /-- The queue of the executor takes a task. -/
  queueAccepts : Bool
  /-- What the executor reports of a send, unless it takes too long. -/
  sendOutcome : Option (Except String String)

variable {Device SyncKey Jid α : Type}

/-- A handler stops early by throwing its response, and is stopped when it takes the firmware
down. -/
abbrev HandlerM (Device SyncKey Jid : Type) := Prog (Firmware Device SyncKey Jid) Response

variable (server : Server Device SyncKey Jid) (m : Moment) (req : Request)

/-- The JSON body of an error. -/
def Server.errorBody (message : String) : String := server.print (.obj [("error", .str message)])

/-- The check that the sensitive handlers begin with. -/
def requireToken : HandlerM Device SyncKey Jid Unit :=
  match server.auth.check req with
  | .ok () => pure ()
  | .error (status, body) => .throw (jsonResponseStatus status body)

/-- Go on with the value, or answer. -/
def orAnswer (value : Option α) (response : Response) : HandlerM Device SyncKey Jid α :=
  match value with
  | some a => pure a
  | none => .throw response

/-- Answer unless the condition holds. -/
def ensure (condition : Bool) (response : Response) : HandlerM Device SyncKey Jid Unit :=
  if condition then pure () else .throw response

/-- `usize::try_from`, on a board with 32-bit addresses. -/
def toUsize (len : UInt64) : Option ℕ := if len.toNat < 2 ^ 32 then some len.toNat else none

/-- `read_json_body`: the checks of type and length, then the body as JSON. -/
def readJsonBody (maxLen : ℕ) : HandlerM Device SyncKey Jid Json := do
  ensure ((req.header "content-type").any fun value =>
    "application/json".toList.isPrefixOf value.toList)
    (failed 415 "Content-Type must be application/json")
  let contentLen ← orAnswer (req.contentLen.bind toUsize) (failed 411 "Content-Length required")
  ensure (contentLen ≠ 0 ∧ contentLen ≤ maxLen) (failed 413 "Invalid request size")
  ensure (contentLen ≤ req.body.length) (failed 400 "Could not read the request body")
  orAnswer (server.parse (req.body.take contentLen)) (failed 400 "Invalid JSON")

/-- `value.get(key).and_then(as_str)`. -/
def getStr (value : Json) (key : String) : Option String :=
  match value with
  | .obj fields =>
    match fields.lookup key with
    | some (.str s) => some s
    | _ => none
  | _ => none

/-- `task_tx.try_send(task)`. -/
def trySend (job : Job Jid) : HandlerM Device SyncKey Jid Bool :=
  if m.queueAccepts then do
    Prog.modify fun s => { s with queue := s.queue ++ [job] }
    pure true
  else
    pure false

/-! ### The handlers -/

/-- `StoreStats`: counts of records, and whether there is a device. -/
structure StoreStats where
  sessions : ℕ
  identities : ℕ
  prekeys : ℕ
  senderKeys : ℕ
  deviceExists : Bool
  deriving DecidableEq

/-- `NvsStore::stats`: without PSRAM the capped mirrors are counted in flash, if that works. -/
def stats (P : Platform Device SyncKey) (store : NvsStore Device SyncKey) : StoreStats :=
  let counted (kind : Kind) (mirrored : ℕ) : ℕ :=
    if P.hasPsram then
      mirrored
    else
      match (recordCount (.records kind) store.flash).1 with
      | .ok count => count
      | _ => mirrored
  { sessions := counted .sessions store.inner.sessions.map.size
    identities := counted .identities store.inner.identities.map.size
    prekeys := store.inner.prekeys.size
    senderKeys := store.inner.senderKeys.size
    deviceExists := store.inner.device.isSome }

/-- `/`: the state of the firmware and the counts of the store. -/
def storeStats : HandlerM Device SyncKey Jid Response := do
  let s ← Prog.get
  let stats := stats server.platform s.store
  pure (jsonResponse (server.print (.obj [("status", .str "running"),
    ("heap_free", .num m.heapFree), ("heap_internal", .num m.heapInternal),
    ("sessions", .num stats.sessions),
    ("identities", .num stats.identities), ("prekeys", .num stats.prekeys),
    ("sender_keys", .num stats.senderKeys), ("device_paired", .bool stats.deviceExists)])))

/-- The one sensitive route that answers everybody. -/
def device : HandlerM Device SyncKey Jid Response := do
  let s ← Prog.get
  let authenticated := match server.auth.check req with
    | .ok () => true
    | .error _ => false
  pure (jsonResponse (server.print (s.status.toJsonAuthenticated m.now authenticated)))

/-- `/messages`: the message log. -/
def messages : HandlerM Device SyncKey Jid Response := do
  requireToken server req
  let s ← Prog.get
  pure (jsonResponse (server.print s.status.messagesJson))

/-- `/send`, up to the job that it queues. -/
def send : HandlerM Device SyncKey Jid Response := do
  requireToken server req
  ensure (server.admission ≠ some false) (failed 503 "Send admission unavailable; reboot to retry")
  let value ← readJsonBody server req 2048
  let recipient ← orAnswer (getStr value "to") (failed 400 "to is required")
  let text ← orAnswer (getStr value "text") (failed 400 "text is required")
  ensure (text ≠ "") (failed 400 "text is empty")
  let jid ← orAnswer (server.parseJid recipient) (failed 400 "to is not a JID")
  let s ← Prog.get
  let client ← orAnswer s.activeClient (failed 503 "WhatsApp client is starting")
  ensure client.isLoggedIn (failed 503 "Not connected")
  -- A send that is still waiting when the handler gives up is abandoned.
  let accepted ← trySend m (.send client jid text m.sendOutcome.isNone)
  ensure accepted (failed 503 "WhatsApp executor is unavailable")
  match m.sendOutcome with
  | some (.ok messageId) =>
    pure (jsonResponse (server.print (.obj [("result", .str "sent"),
      ("message_id", .str messageId), ("to", .str recipient)])))
  | some (.error error) => pure (jsonResponseStatus 502 (server.errorBody error))
  | none => pure (failed 504 "Send did not complete in time")

/-- The characters that people write phone numbers with. -/
def isPhoneChar (c : Char) : Bool := c.isDigit || ['+', ' ', '-', '(', ')'].contains c

/-- `/pair-code`, up to the job that it queues. -/
def pairCode : HandlerM Device SyncKey Jid Response := do
  requireToken server req
  let value ← readJsonBody server req 128
  let rawPhone ← orAnswer (getStr value "phone_number") (failed 400 "phone_number is required")
  ensure (rawPhone.toList.all isPhoneChar) (failed 400 "Invalid phone number")
  let digits := rawPhone.toList.filter Char.isDigit
  ensure (7 ≤ digits.length ∧ digits.length ≤ 15 ∧ digits.head? ≠ some '0')
    (failed 400 "Use 7-15 international digits without a leading zero")
  let s ← Prog.get
  ensure (MaintenanceCoordinator.isIdle s.maintenance)
    (failed 409 "Device maintenance is in progress")
  let client ← orAnswer s.activeClient (failed 503 "WhatsApp client is starting")
  ensure (!((stats server.platform s.store).deviceExists || client.isLoggedIn))
    (failed 409 "Device is already paired")
  match s.status.beginPairCode m.now with
  | (.error message, _) => .throw (jsonResponseStatus 409 (server.errorBody message))
  | (.ok requestId, status) => do
    Prog.modify fun s => { s with status }
    let accepted ← trySend m (.pairCode client requestId (String.ofList digits))
    if accepted then
      pure (jsonResponseStatus 202 (objectText [("result", "pending")]))
    else do
      Prog.modify fun s =>
        { s with status := s.status.failPairCode requestId "WhatsApp executor is unavailable" }
      pure (failed 503 "WhatsApp executor is unavailable")

/-- The routes that end in a reboot share this. -/
def queueMaintenance (action : MaintenanceAction) (accepted : String) :
    HandlerM Device SyncKey Jid Response := do
  requireToken server req
  let s ← Prog.get
  let (answer, maintenance) := MaintenanceCoordinator.request s.maintenance action
  Prog.modify fun s => { s with maintenance }
  match answer with
  | .rejected => .throw (failed 409 "Device is already rebooting")
  | .queued => pure (jsonResponseStatus 202 accepted)
  | .start => do
    let taken ← trySend m .runMaintenance
    if taken then
      pure (jsonResponseStatus 202 accepted)
    else do
      Prog.modify fun s =>
        { s with maintenance := MaintenanceCoordinator.cancelStart s.maintenance }
      pure (failed 503 "WhatsApp executor is unavailable")

/-- `/sessions`: the addresses of all sessions. -/
def sessions : HandlerM Device SyncKey Jid Response := do
  requireToken server req
  let listed ← Prog.attempt (Prog.zoom Firmware.store (fun s store => { s with store })
    (NvsStore.listSessions server.platform))
  match listed with
  | .ok addresses => pure (jsonResponse (server.print (.obj [("count", .num addresses.length),
      ("addresses", .arr (addresses.map .str))])))
  | .error error => .throw (failed 500 ("session list failed: " ++ server.platform.errorText error))

/-! ### The routes -/

/-- The routes of the server. -/
inductive Route
  | dashboard
  | qrcodeJs
  | stats
  | device
  | messages
  | send
  | pairCode
  | health
  | testPanic
  | metrics
  | reset
  | reboot
  | listSessions
  | clearSessions
  deriving DecidableEq

/-- The registered routes. -/
def routes : List (Method × String × Route) :=
  [(.get, "/dashboard", .dashboard),
    (.get, "/qrcode.min.js", .qrcodeJs),
    (.get, "/", .stats),
    (.get, "/device", .device),
    (.get, "/messages", .messages),
    (.post, "/send", .send),
    (.post, "/pair-code", .pairCode),
    (.get, "/health", .health),
    (.post, "/test-panic", .testPanic),
    (.get, "/metrics", .metrics),
    (.post, "/reset", .reset),
    (.post, "/reboot", .reboot),
    (.get, "/sessions", .listSessions),
    (.delete, "/sessions", .clearSessions)]

/-- The first route with the method and the path of the request. -/
def Request.route (req : Request) : Option Route :=
  (routes.find? fun r => r.1 = req.method ∧ r.2.1 = req.path).map fun r => r.2.2

/-- The handler of each route. -/
def Route.handler : Route → HandlerM Device SyncKey Jid Response
  | .dashboard =>
    pure ⟨200, [("Content-Type", "text/html")], asBytes server.dashboardHtml⟩
  | .qrcodeJs =>
    pure ⟨200, [("Content-Type", "application/javascript"), ("Cache-Control", "no-cache"),
      ("X-Content-Type-Options", "nosniff")], server.qrcodeJs⟩
  | .stats => storeStats server m
  | .device => Admin.device server m req
  | .messages => Admin.messages server req
  | .send => Admin.send server m req
  | .pairCode => Admin.pairCode server m req
  | .health => pure ⟨200, [], asBytes "ok"⟩
  -- Crashes on purpose, for anyone: it exercises the persistent crash diagnostics.
  | .testPanic => .halt
  | .metrics => pure (jsonResponse m.systemMetricsJson)
  | .reset => queueMaintenance server m req .reset
      (objectText [("result", "resetting"),
        ("message", "Logging out, clearing persistent data, and rebooting.")])
  | .reboot => queueMaintenance server m req .reboot (objectText [("result", "rebooting")])
  | .listSessions => sessions server req
  | .clearSessions => queueMaintenance server m req .clearSessions
      (objectText [("result", "clearing"),
        ("message", "Disconnecting, clearing sessions, and rebooting.")])

/-- Serve one request: its response and the firmware after it, or nothing if it went down. -/
def handle (s : Firmware Device SyncKey Jid) : Option (Response × Firmware Device SyncKey Jid) :=
  match req.route with
  | none => some (server.unmatched req, s)
  | some route =>
    match route.handler server m req s with
    | (.ok response, s') => some (response, s')
    | (.error response, s') => some (response, s')
    | (.halted, _) => none

/-- A request, and what the device does by itself before it comes. -/
structure Visit (Device SyncKey Jid : Type) where
  meanwhile : Firmware Device SyncKey Jid → Firmware Device SyncKey Jid
  moment : Moment
  request : Request

/-- Serve requests in turn: the responses, and the firmware unless it went down. -/
def serveAll : List (Visit Device SyncKey Jid) → Firmware Device SyncKey Jid →
    List Response × Option (Firmware Device SyncKey Jid)
  | [], s => ([], some s)
  | v :: visits, s =>
    match handle server v.moment v.request (v.meanwhile s) with
    | none => ([], none)
    | some (response, s') =>
      let rest := serveAll visits s'
      (response :: rest.1, rest.2)

/-! ### The token check -/

section

variable {auth : AdminAuth} {req : Request}

theorem foldl_or_eq_zero (pairs : List (UInt8 × UInt8)) (acc : UInt8) :
    pairs.foldl (fun acc (a, b) => acc ||| (a ^^^ b)) acc = 0 ↔
      acc = 0 ∧ ∀ p ∈ pairs, p.1 = p.2 := by
  induction pairs generalizing acc with
  | nil => simp
  | cons p pairs ih =>
    rw [List.foldl_cons, ih]
    simp only [UInt8.or_eq_zero_iff, UInt8.xor_eq_zero_iff, List.mem_cons, forall_eq_or_imp,
      and_assoc]

/-- The comparison of `check`, for any two byte strings. -/
theorem compare_iff (provided expected : Bytes) :
    (provided.length = expected.length ∧
      (provided.zip expected).foldl (fun acc (a, b) => acc ||| (a ^^^ b)) (0 : UInt8) = 0) ↔
      provided = expected := by
  rw [foldl_or_eq_zero, ← List.forall₂_eq_eq_eq, List.forall₂_iff_zip]
  simp

/-- The check accepts exactly the token; a missing header counts as an empty one. -/
theorem check_eq_ok_iff {expected : String} (h : auth.token = some expected) :
    auth.check req = .ok () ↔ (req.header tokenHeader).getD "" = expected := by
  have hcompare := compare_iff (asBytes ((req.header tokenHeader).getD "")) (asBytes expected)
  rw [asBytes_inj] at hcompare
  unfold AdminAuth.check
  simp only [h]
  split_ifs with hmatch
  · exact iff_of_true rfl (hcompare.mp hmatch)
  · exact iff_of_false nofun fun heq => hmatch (hcompare.mpr heq)

/-- Everybody else gets the same refusal. -/
theorem check_of_ne {expected : String} (h : auth.token = some expected)
    (hne : (req.header tokenHeader).getD "" ≠ expected) :
    auth.check req = .error unauthorized := by
  have hnot := mt (check_eq_ok_iff h).mp hne
  unfold AdminAuth.check at hnot ⊢
  simp only [h] at hnot ⊢
  split_ifs at hnot ⊢ with hmatch
  · exact absurd rfl hnot
  · rfl

end

end Admin

end WhatsappEsp32
