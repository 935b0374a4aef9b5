import WhatsappEsp32.Admin.Routes

/-!
# Requests without the token

With a token configured, requests that do not carry it leave no trace in the firmware, and the
sensitive routes tell them nothing but whether the device is connected: one request at a time
(`handle_tokenless`), and in any sequence of requests, whatever the device does in between
(`tokenless_requests`).  The one exception is `POST /test-panic`, which crashes the firmware for
anyone (`testPanic_needs_no_token`).
-/

namespace WhatsappEsp32

open CrashLogic

namespace Admin

variable {Device SyncKey Jid α : Type} {server : Server Device SyncKey Jid} {token : String}

/-! ### One request -/

/-- The paths whose responses are withheld or redacted. -/
def protectedPaths : List String :=
  ["/device", "/messages", "/sessions", "/send", "/pair-code", "/reset", "/reboot"]

/-- The request does not carry the token. -/
def Request.Tokenless (req : Request) (token : String) : Prop :=
  req.header tokenHeader ≠ some token

/-- What a request without the token gets. -/
def denied : Response := jsonResponseStatus unauthorized.1 unauthorized.2

/-- What `GET /device` shows without the token. -/
def redacted (connected : Bool) : Json :=
  .obj [("qr_code", .null), ("connected", .bool connected), ("pn", .null), ("lid", .null),
    ("pair_code", .obj [("state", .str "redacted")])]

/-- The responses of the protected paths without the token. -/
def tokenlessAnswer (server : Server Device SyncKey Jid) (connected : Bool) (req : Request) :
    Response :=
  match req.route with
  | none => server.unmatched req
  | some .device => jsonResponse (server.print (redacted connected))
  | some _ => denied

theorem Request.Tokenless.getD_ne {req : Request} (h : req.Tokenless token) (htoken : token ≠ "") :
    (req.header tokenHeader).getD "" ≠ token := by
  cases hheader : req.header tokenHeader with
  | none => exact htoken.symm
  | some provided =>
    rintro rfl
    exact h hheader

/-- A handler that begins with the check ends with it. -/
theorem requireToken_denied {req : Request} {rest : Unit → HandlerM Device SyncKey Jid α}
    (hcheck : server.auth.check req = .error unauthorized)
    (s : Firmware Device SyncKey Jid) :
    (requireToken server req >>= rest) s = (.error denied, s) := by
  apply Prog.bind_of_error
  unfold requireToken
  rw [hcheck]
  rfl

theorem mem_routes {req : Request} {route : Route} (h : req.route = some route) :
    (req.method, req.path, route) ∈ routes := by
  unfold Request.route at h
  obtain ⟨⟨method, path, route'⟩, hfind, rfl⟩ := Option.map_eq_some_iff.mp h
  have hmem := List.mem_of_find?_eq_some hfind
  have hmatch := List.find?_some hfind
  simp only [decide_eq_true_eq] at hmatch
  rw [← hmatch.1, ← hmatch.2]
  exact hmem

/-- The routes that answer everybody in full. -/
def Route.isOpen : Route → Bool
  | .dashboard | .qrcodeJs | .stats | .health | .metrics => true
  | _ => false

theorem open_unprotected : ∀ r ∈ routes, r.2.2.isOpen = true → r.2.1 ∉ protectedPaths := by
  decide

theorem open_handler (server : Server Device SyncKey Jid) {route : Route}
    (h : route.isOpen = true) (m : Moment) (req : Request)
    (s : Firmware Device SyncKey Jid) :
    ∃ response, route.handler server m req s = (.ok response, s) := by
  cases route with
  | dashboard | qrcodeJs | stats | health | metrics => exact ⟨_, rfl⟩
  | _ => cases h

/-- Every other route but `GET /device` and `POST /test-panic` checks the token first. -/
theorem guarded_handler {route : Route} {req : Request}
    (hcheck : server.auth.check req = .error unauthorized)
    (hopen : route.isOpen = false) (hdevice : route ≠ .device) (hpanic : route ≠ .testPanic)
    (m : Moment) (s : Firmware Device SyncKey Jid) :
    route.handler server m req s = (.error denied, s) := by
  cases route with
  | dashboard | qrcodeJs | stats | health | metrics => cases hopen
  | device => exact absurd rfl hdevice
  | testPanic => exact absurd rfl hpanic
  | messages | send | pairCode | reset | reboot | listSessions | clearSessions =>
    exact requireToken_denied hcheck s

theorem device_handler {req : Request}
    (hcheck : server.auth.check req = .error unauthorized)
    (m : Moment) (s : Firmware Device SyncKey Jid) :
    Route.device.handler server m req s =
      (.ok (jsonResponse (server.print (redacted s.status.connected))), s) := by
  show device server m req s = _
  unfold device
  rw [Prog.bind_of_ok (Prog.get_run s), hcheck]
  rfl

/-- A request without the token changes nothing, and the protected paths answer it with what
everybody gets. -/
theorem handle_tokenless (hserver : server.auth.token = some token) (htoken : token ≠ "")
    {req : Request} (hreq : req.Tokenless token) (hpanic : req.route ≠ some .testPanic) (m : Moment)
    (s : Firmware Device SyncKey Jid) :
    ∃ response, handle server m req s = some (response, s) ∧
      (req.path ∈ protectedPaths →
        response = tokenlessAnswer server s.status.connected req) := by
  have hcheck := check_of_ne hserver (hreq.getD_ne htoken)
  unfold handle tokenlessAnswer
  cases hroute : req.route with
  | none => exact ⟨_, rfl, fun _ => rfl⟩
  | some route =>
    by_cases hdevice : route = .device
    · subst hdevice
      simp only [device_handler hcheck m s]
      exact ⟨_, rfl, fun _ => rfl⟩
    · cases hopen : route.isOpen with
      | true =>
        obtain ⟨response, hrun⟩ := open_handler server hopen m req s
        simp only [hrun]
        refine ⟨response, rfl, fun hpath => ?_⟩
        exact absurd hpath (open_unprotected _ (mem_routes hroute) hopen)
      | false =>
        have hroutePanic : route ≠ .testPanic := fun heq => hpanic (by rw [hroute, heq])
        simp only [guarded_handler hcheck hopen hdevice hroutePanic m s]
        refine ⟨denied, rfl, fun _ => ?_⟩
        cases route with
        | device => exact absurd rfl hdevice
        | _ => rfl

/-! ### Any number of requests -/

/-- What the device does by itself. -/
def undisturbed (visits : List (Visit Device SyncKey Jid)) (s : Firmware Device SyncKey Jid) :
    Firmware Device SyncKey Jid := visits.foldl (fun s v => v.meanwhile s) s

/-- Whether the device is connected as each request comes, if it is left to itself. -/
def connectedAt : List (Visit Device SyncKey Jid) → Firmware Device SyncKey Jid → List Bool
  | [], _ => []
  | v :: visits, s => (v.meanwhile s).status.connected :: connectedAt visits (v.meanwhile s)

/-- The requests to the protected paths, with their responses. -/
def shown (server : Server Device SyncKey Jid) (visits : List (Visit Device SyncKey Jid))
    (s : Firmware Device SyncKey Jid) : List (Request × Response) :=
  ((visits.map Visit.request).zip (serveAll server visits s).1).filter
    fun answered => answered.1.path ∈ protectedPaths

/-- Requests that a client without the token can make without crashing the device. -/
def Visit.Harmless (v : Visit Device SyncKey Jid) (token : String) : Prop :=
  v.request.Tokenless token ∧ v.request.route ≠ some .testPanic

instance (v : Visit Device SyncKey Jid) (token : String) : Decidable (v.Harmless token) :=
  inferInstanceAs (Decidable (¬_ = _ ∧ ¬_ = _))

section

variable {visits : List (Visit Device SyncKey Jid)}

/-- The run: the firmware is the one that was left to itself, and what is shown can be told from
the requests and the connections. -/
theorem serveAll_tokenless (hserver : server.auth.token = some token) (htoken : token ≠ "")
    (hvisits : ∀ v ∈ visits, v.Harmless token) (s : Firmware Device SyncKey Jid) :
    (serveAll server visits s).2 = some (undisturbed visits s) ∧
    (serveAll server visits s).1.length = visits.length ∧
    shown server visits s =
      (((visits.map Visit.request).zip (connectedAt visits s)).filter
        fun asked => asked.1.path ∈ protectedPaths).map
        fun asked => (asked.1, tokenlessAnswer server asked.2 asked.1) := by
  induction visits generalizing s with
  | nil => exact ⟨rfl, rfl, rfl⟩
  | cons v visits ih =>
    obtain ⟨hv, hrest⟩ := List.forall_mem_cons.mp hvisits
    obtain ⟨response, hhandle, hanswer⟩ :=
      handle_tokenless hserver htoken hv.1 hv.2 v.moment (v.meanwhile s)
    obtain ⟨hstate, hlength, hshown⟩ := ih hrest (v.meanwhile s)
    have hserve : serveAll server (v :: visits) s =
        (response :: (serveAll server visits (v.meanwhile s)).1,
          (serveAll server visits (v.meanwhile s)).2) := by
      rw [serveAll, hhandle]
    refine ⟨by rw [hserve, hstate]; rfl, by rw [hserve]; simp [hlength], ?_⟩
    unfold shown at hshown ⊢
    rw [hserve, connectedAt, List.map_cons, List.zip_cons_cons, List.zip_cons_cons]
    by_cases hpath : v.request.path ∈ protectedPaths
    · rw [List.filter_cons_of_pos (by simpa using hpath),
        List.filter_cons_of_pos (by simpa using hpath), List.map_cons, hshown, hanswer hpath]
    · rw [List.filter_cons_of_neg (by simpa using hpath),
        List.filter_cons_of_neg (by simpa using hpath), hshown]

end

/-- With a token configured, requests that do not carry it, `POST /test-panic` apart, leave the
firmware as if they had never come, and the protected paths show two devices that are connected at
the same requests alike.  The check accepts exactly the token. -/
theorem tokenless_requests {opened : Except NvsError Unit}
    {value : Except NvsError (Option String)} {defaultAdminToken : String}
    (htoken : adminToken opened value defaultAdminToken = .ok (some token))
    (hserver : server.auth = ⟨some token⟩) :
    (∀ (visits : List (Visit Device SyncKey Jid)) (s : Firmware Device SyncKey Jid),
      (∀ v ∈ visits, v.Harmless token) →
      (serveAll server visits s).2 = some (undisturbed visits s) ∧
      (serveAll server visits s).1.length = visits.length ∧
      ∀ (visits' : List (Visit Device SyncKey Jid)) (s' : Firmware Device SyncKey Jid),
        visits'.map Visit.request = visits.map Visit.request →
        connectedAt visits' s' = connectedAt visits s →
        shown server visits' s' = shown server visits s) ∧
    (∀ req : Request, server.auth.check req = .ok () ↔ req.header tokenHeader = some token) ∧
    ∀ (expected provided : String) (req : Request), req.header tokenHeader = some provided →
      (AdminAuth.check ⟨some expected⟩ req = .ok () ↔ provided = expected) := by
  have hnonempty := adminToken_ne_empty htoken
  have hauth : server.auth.token = some token := by rw [hserver]
  refine ⟨fun visits s hvisits => ?_, fun req => ?_, fun expected provided req hreq => ?_⟩
  · obtain ⟨hstate, hlength, hshown⟩ := serveAll_tokenless hauth hnonempty hvisits s
    refine ⟨hstate, hlength, fun visits' s' hrequests hconnected => ?_⟩
    have hvisits' : ∀ v ∈ visits', v.Harmless token := by
      intro v hv
      have hmem : v.request ∈ visits.map Visit.request := by
        rw [← hrequests]
        exact List.mem_map_of_mem hv
      obtain ⟨w, hw, hsame⟩ := List.mem_map.mp hmem
      have hharmless := hvisits w hw
      unfold Visit.Harmless at hharmless ⊢
      rwa [hsame] at hharmless
    rw [hshown, (serveAll_tokenless hauth hnonempty hvisits' s').2.2, hrequests, hconnected]
  · rw [check_eq_ok_iff hauth]
    cases req.header tokenHeader with
    | none => simpa using hnonempty.symm
    | some provided => simp
  · rw [check_eq_ok_iff rfl, hreq, Option.getD_some]

/-! ### A linked device with a token -/

/-- A server with a token. -/
def tokenServer : Server Bytes Bytes String where
  platform := aliceBoard
  auth := ⟨some "kitchen-secret"⟩
  admission := some true
  dashboardHtml := "<!DOCTYPE html>"
  qrcodeJs := []
  print := fun _ => ""
  parse := fun _ => none
  parseJid := some
  unmatched := fun _ => ⟨404, [], asBytes "Nothing matches the given URI"⟩

/-- A linked and connected device. -/
def linkedFirmware : Firmware Bytes Bytes String where
  store := linkedStore
  status := DeviceStatus.new.setConnected (some "15551234567@s.whatsapp.net") none
  maintenance := MaintenanceCoordinator.new
  activeClient := some ⟨0, true⟩
  queue := []

/-- A request with an empty body and at most the token header. -/
def visit (method : Method) (path : String) (provided : Option String) :
    Visit Bytes Bytes String where
  meanwhile := id
  moment := ⟨0, 0, 0, "", true, none⟩
  request := ⟨method, path, fun name => if name = tokenHeader then provided else none, none, []⟩

/-- A reader without a token and two guesses. -/
def guesses : List (Visit Bytes Bytes String) :=
  [visit .get "/messages" none, visit .post "/reset" (some "kitchen-secre"),
    visit .delete "/sessions" (some "Kitchen-secret")]

/-- They are refused and leave no trace. -/
theorem guesses_leave_no_trace :
    adminToken (.ok ()) (.ok (some "kitchen-secret")) "" = .ok (some "kitchen-secret") ∧
    (∀ v ∈ guesses, v.Harmless "kitchen-secret") ∧
    (serveAll tokenServer guesses linkedFirmware).2 = some linkedFirmware ∧
    (serveAll tokenServer guesses linkedFirmware).1.length = 3 := by
  have htoken : adminToken (.ok ()) (.ok (some "kitchen-secret")) "" =
      .ok (some "kitchen-secret") := by decide
  have hharmless : ∀ v ∈ guesses, v.Harmless "kitchen-secret" := by decide
  obtain ⟨hstate, hlength, -⟩ :=
    (tokenless_requests htoken (rfl : tokenServer.auth = _)).1 guesses linkedFirmware hharmless
  exact ⟨htoken, hharmless, hstate, hlength⟩

/-- A client without the token can crash the firmware. -/
theorem testPanic_needs_no_token :
    ¬∀ (server : Server Bytes Bytes String) (token : String) (opened : Except NvsError Unit)
      (value : Except NvsError (Option String)) (defaultAdminToken : String),
      adminToken opened value defaultAdminToken = .ok (some token) → server.auth = ⟨some token⟩ →
      ∀ (visits : List (Visit Bytes Bytes String)) (s : Firmware Bytes Bytes String),
        (∀ v ∈ visits, v.request.Tokenless token) →
        (serveAll server visits s).2 = some (undisturbed visits s) := by
  intro h
  have hstate := h tokenServer "kitchen-secret" (.ok ()) (.ok (some "kitchen-secret")) "" rfl rfl
    [visit .post "/test-panic" none] linkedFirmware (by simp [Request.Tokenless, visit])
  have hgone : (serveAll tokenServer [visit .post "/test-panic" none] linkedFirmware).2 = none :=
    rfl
  rw [hgone] at hstate
  cases hstate

end Admin

end WhatsappEsp32
