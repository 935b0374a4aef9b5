import Mathlib.Data.Bool.AllAny
import Mathlib.Data.List.DropRight
import WhatsappEsp32.Http.Request
import WhatsappEsp32.Ws.Client

/-!
# URLs and the `Host` header

`parse_url` takes a URL apart.  The host and the port go to the dialer; the request that is then
written, by `build_raw_request` or by the WebSocket client, is given the host alone.

* `parseUrl`, `execute`, `executeStreaming`, `wsEndpoint`: from a URL to a request;
* `Url`, `Url.text`: well-formed URLs, and how they are written;
* `parseUrl_text`: what a URL is parsed to;
* `hostField`: the `Host` header of a request, as a server reads it;
* `carriesAuthority_iff`: it is the authority of the URL exactly if the URL gives no port.
-/

namespace WhatsappEsp32.Http

open RustStr

/-! ### From a URL to a request -/

/-- What `parse_url` takes out of a URL. -/
structure ParsedUrl where
  host : String
  port : UInt16
  path : String
  useTls : Bool
  deriving DecidableEq

/-- What follows the scheme, and whether it asks for TLS. -/
def stripScheme (url : Str) : Option (Str × Bool) :=
  (((stripPrefix "https://".toList url).map (·, true)).or
    ((stripPrefix "wss://".toList url).map (·, true))).or
    (((stripPrefix "http://".toList url).map (·, false)).or
      ((stripPrefix "ws://".toList url).map (·, false)))

/-- The authority, and the path from its first slash on. -/
def splitPath (withoutScheme : Str) : Str × Str :=
  match withoutScheme.dropWhile (· ≠ '/') with
  | [] => (withoutScheme, ['/'])
  | path => (withoutScheme.takeWhile (· ≠ '/'), path)

/-- Parse a URL into host, port, path and whether to use TLS. -/
def parseUrl (url : String) : Except HttpError ParsedUrl :=
  match stripScheme url.toList with
  | none => .error (.message s!"Invalid URL scheme: {url}")
  | some (withoutScheme, useTls) =>
    let (hostPort, path) := splitPath withoutScheme
    match splitOnce ':' hostPort with
    | some (host, port) =>
      match parseUnsigned 65535 port with
      | .ok port => .ok ⟨String.ofList host, UInt16.ofNat port, String.ofList path, useTls⟩
      | .error e => .error (.message e)
    | none => .ok ⟨String.ofList hostPort, if useTls then 443 else 80, String.ofList path, useTls⟩

/-- Under QEMU the loopback is dialed as the gateway of the emulator. -/
def qemuHost (qemu : Bool) (host : String) : String :=
  if qemu && (host = "127.0.0.1" || host = "localhost") then "10.0.2.2" else host

/-- A request of the SDK: `wacore::net::HttpRequest`. -/
structure HttpRequest where
  url : String
  method : String
  headers : List (String × String)
  body : Option Bytes

/-- A request that is ready to be sent, and where to connect to. -/
structure Outbound where
  raw : String
  dial : String
  port : UInt16
  useTls : Bool

/-- The free heap below which `execute` refuses a request. -/
def minHeapForBufferedFetch : ℕ := 32 * 1024

/-- `execute` up to the connection; `free` is the free heap. -/
def execute (qemu : Bool) (free : ℕ) (request : HttpRequest) : Except HttpError Outbound :=
  if free < minHeapForBufferedFetch then
    let url := request.url
    .error (.message s!"refusing buffered fetch of {url} with only {free} heap free")
  else do
    let url ← parseUrl request.url
    let raw ← buildRawRequest request.method url.path url.host request.headers request.body
    .ok ⟨raw, qemuHost qemu url.host, url.port, url.useTls⟩

/-- `execute_streaming` up to the connection: no body is sent. -/
def executeStreaming (qemu : Bool) (request : HttpRequest) : Except HttpError Outbound := do
  let url ← parseUrl request.url
  let raw ← buildRawRequest request.method url.path url.host request.headers none
  .ok ⟨raw, qemuHost qemu url.host, url.port, url.useTls⟩

/-- What `ws_thread` hands to `WsClient::connect`. -/
def wsEndpoint (wsUrl : String) (nonce : Bytes) : Except HttpError Ws.Endpoint := do
  let url ← parseUrl wsUrl
  let host := url.host
  .ok ⟨host, url.path, s!"https://{host}", nonce⟩

/-! ### URLs -/

/-- The schemes that `parse_url` knows. -/
inductive Scheme
  | http
  | https
  | ws
  | wss
  deriving DecidableEq

/-- A scheme as it stands in a URL. -/
def Scheme.text : Scheme → String
  | http => "http"
  | https => "https"
  | ws => "ws"
  | wss => "wss"

/-- The schemes over TLS. -/
def Scheme.useTls : Scheme → Bool
  | http | ws => false
  | https | wss => true

/-- A space or an ASCII control character. -/
def isSpaceOrControl (c : Char) : Bool := c.toNat ≤ 32 || c.toNat = 127

/-- A URL: the host and the target are free of characters that end them. -/
structure Url where
  scheme : Scheme
  host : String
  port : Option UInt16
  target : String
  host_ne : host ≠ ""
  hostOk : ∀ c ∈ host.toList, c ≠ '/' ∧ c ≠ ':' ∧ isSpaceOrControl c = false
  target_eq : target = "" ∨ target.toList.head? = some '/'
  targetOk : ∀ c ∈ target.toList, isSpaceOrControl c = false

namespace Url

variable (url : Url)

/-- The host, and the port if there is one. -/
def authority : String :=
  match url.port with
  | none => url.host
  | some port => url.host ++ ":" ++ toString port.toNat

/-- The URL as a string. -/
def text : String := url.scheme.text ++ "://" ++ url.authority ++ url.target

/-- The port of the URL, or that of its scheme. -/
def portOrDefault : UInt16 := url.port.getD (if url.scheme.useTls then 443 else 80)

/-- The request target; an empty one stands for `/`. -/
def path : String := if url.target = "" then "/" else url.target

end Url

/-! ### The parts of a URL -/

theorem stripScheme_append (scheme : Scheme) (rest : Str) :
    stripScheme (scheme.text.toList ++ "://".toList ++ rest) = some (rest, scheme.useTls) := by
  cases scheme <;> rfl

theorem parseUnsigned_toString {n max : ℕ} (h : n ≤ max) :
    parseUnsigned max (toString n).toList = .ok n := by
  rw [parseUnsigned_eq_ok_iff]
  refine ⟨_, Or.inl rfl, ⟨?_, ?_⟩, decimal_toString n, h⟩
  · rw [Nat.toString_eq_ofList_toDigits, String.toList_ofList]
    exact Nat.toDigits_ne_nil
  · intro c hc
    rw [Nat.toString_eq_ofList_toDigits, String.toList_ofList] at hc
    exact Nat.isDigit_of_mem_toDigits (b := 10) (by decide) le_rfl hc

theorem splitPath_append {authority target : Str} (h : '/' ∉ authority)
    (htarget : target = [] ∨ target.head? = some '/') :
    splitPath (authority ++ target) = (authority, if target = [] then ['/'] else target) := by
  have hne := ne_of_notMem h
  rcases htarget with rfl | hslash
  · rw [List.append_nil, splitPath, List.dropWhile_eq_nil_iff.mpr hne, if_pos rfl]
  · obtain ⟨rest, rfl⟩ := List.head?_eq_some_iff.mp hslash
    rw [splitPath, List.dropWhile_append_of_pos hne, List.takeWhile_append_of_pos hne]
    simp

namespace Url

variable (url : Url)

theorem colon_notMem_host : ':' ∉ url.host.toList := fun h => (url.hostOk _ h).2.1 rfl

theorem slash_notMem_host : '/' ∉ url.host.toList := fun h => (url.hostOk _ h).1 rfl

theorem slash_notMem_authority : '/' ∉ url.authority.toList := by
  unfold authority
  cases url.port with
  | none => exact url.slash_notMem_host
  | some port =>
    simp only [String.toList_append, List.mem_append]
    rintro ((hmem | hmem) | hmem)
    · exact url.slash_notMem_host hmem
    · exact absurd hmem (by decide)
    · rw [Nat.toString_eq_ofList_toDigits, String.toList_ofList] at hmem
      exact absurd (Nat.isDigit_of_mem_toDigits (b := 10) (by decide) le_rfl hmem) (by decide)

theorem splitPath_text : splitPath (url.authority.toList ++ url.target.toList) =
    (url.authority.toList, url.path.toList) := by
  have htarget : url.target.toList = [] ∨ url.target.toList.head? = some '/' :=
    url.target_eq.imp_left fun h => by rw [h]; rfl
  rw [splitPath_append url.slash_notMem_authority htarget, path]
  simp only [String.toList_eq_nil_iff]
  split_ifs <;> rfl

end Url

/-- A URL is parsed to what it was put together from. -/
theorem parseUrl_text (url : Url) : parseUrl url.text =
    .ok ⟨url.host, url.portOrDefault, url.path, url.scheme.useTls⟩ := by
  have htext : url.text.toList =
      url.scheme.text.toList ++ "://".toList ++ (url.authority.toList ++ url.target.toList) := by
    simp [Url.text]
  rw [parseUrl, htext, stripScheme_append]
  simp only [url.splitPath_text]
  cases hport : url.port with
  | none =>
    have hauthority : url.authority = url.host := by rw [Url.authority, hport]
    rw [hauthority, splitOnce_eq_none url.colon_notMem_host]
    simp [Url.portOrDefault, hport]
  | some port =>
    have hauthority : url.authority.toList = url.host.toList ++ ':' :: (toString port.toNat).toList := by
      rw [Url.authority, hport]
      simp
    have hle : port.toNat ≤ 65535 := Nat.le_of_lt_succ port.toNat_lt
    rw [hauthority, splitOnce_append url.colon_notMem_host]
    simp only [parseUnsigned_toString hle]
    simp [Url.portOrDefault, hport]

/-! ### Bytes -/

/-- An ASCII byte of a string is one of its characters: longer characters have no ASCII bytes. -/
theorem exists_char_of_mem_asBytes {s : String} {b : UInt8} (h : b ∈ asBytes s) (hb : b.toNat < 128) :
    ∃ c ∈ s.toList, c.toNat = b.toNat := by
  rw [← s.ofList_toList, asBytes_ofList, List.mem_flatMap] at h
  obtain ⟨c, hc, hmem⟩ := h
  refine ⟨c, hc, ?_⟩
  have hval : c.toNat = c.val.toNat := rfl
  simp only [String.utf8EncodeChar] at hmem
  -- by the number of bytes: only a single byte can be below 128
  split_ifs at hmem
  all_goals simp only [List.mem_cons, List.not_mem_nil, or_false] at hmem
  · rw [hmem, UInt8.toNat_ofNat']
    omega
  · rcases hmem with rfl | rfl
    all_goals
      rw [UInt8.toNat_ofNat'] at hb
      omega
  · rcases hmem with rfl | rfl | rfl
    all_goals
      rw [UInt8.toNat_ofNat'] at hb
      omega
  · rcases hmem with rfl | rfl | rfl | rfl
    all_goals
      rw [UInt8.toNat_ofNat'] at hb
      omega

/-- The filters of `build_raw_request` look at bytes, and find what stands in the characters. -/
theorem not_control_of_mem_asBytes {s : String} (h : ∀ c ∈ s.toList, isSpaceOrControl c = false)
    {b : UInt8} (hb : b ∈ asBytes s) : isAsciiControl b = false ∧ b ≠ 32 := by
  have hplain : 32 < b.toNat ∧ b.toNat ≠ 127 := by
    by_contra hcontrol
    obtain ⟨c, hc, hcode⟩ := exists_char_of_mem_asBytes hb (by omega)
    have hok : 32 < c.toNat ∧ c.toNat ≠ 127 := by simpa [isSpaceOrControl] using h c hc
    omega
  have hnot : ¬(b < 0x20 ∨ b = 0x7F) := by
    rintro (hlt | rfl)
    · have hnat : b.toNat < 32 := hlt
      omega
    · exact hplain.2 rfl
  refine ⟨by simpa [isAsciiControl] using hnot, ?_⟩
  rintro rfl
  exact absurd hplain.1 (by decide)

/-! ### The `Host` header -/

/-- An ASCII letter in lower case. -/
def lowerByte (b : UInt8) : UInt8 := if 0x41 ≤ b && b ≤ 0x5A then b + 0x20 else b

/-- The white space that may surround the value of a field. -/
def isOws (b : UInt8) : Bool := b = 0x20 || b = 0x09

/-- A field value without the blanks around it. -/
def trimOws (value : Bytes) : Bytes := (value.dropWhile isOws).rdropWhile isOws

/-- The value of a field line, if the field has the given name. -/
def fieldValue (name line : Bytes) : Option Bytes :=
  match line.dropWhile (· ≠ 58) with
  | [] => none
  | _ :: value =>
    if (line.takeWhile (· ≠ 58)).map lowerByte = name.map lowerByte then some (trimOws value)
    else none

/-- The `Host` header of a request. -/
def hostField (raw : Bytes) : Option Bytes :=
  (splitLines raw).tail.findSome? (fieldValue (asBytes "Host"))

theorem trimOws_space {value : Bytes} (h : ∀ b ∈ value, isOws b = false) :
    trimOws (32 :: value) = value := by
  have hstart : (32 :: value).dropWhile isOws = value := by
    rw [List.dropWhile_cons_of_pos (by decide)]
    cases value with
    | nil => rfl
    | cons b value => exact List.dropWhile_cons_of_neg (by simp [h b List.mem_cons_self])
  rw [trimOws, hstart, List.rdropWhile_eq_self_iff]
  intro hne hlast
  rw [h _ (List.getLast_mem hne)] at hlast
  cases hlast

/-- A `Host` line that follows the request line is found. -/
theorem hostField_eq {line rest : Bytes} {host : String} (hline : 13 ∉ line)
    (hhost : ∀ b ∈ asBytes host, isAsciiControl b = false ∧ b ≠ 32) :
    hostField (line ++ 13 :: 10 :: (fieldLine "Host" host ++ 13 :: 10 :: rest)) =
      some (asBytes host) := by
  have hcr : 13 ∉ fieldLine "Host" host := by
    simp only [fieldLine, List.mem_append, List.mem_cons]
    rintro (hmem | hmem | hmem | hmem)
    · exact absurd hmem (by decide)
    · exact absurd hmem (by decide)
    · exact absurd hmem (by decide)
    · exact absurd (hhost 13 hmem).1 (by decide)
  have hows : ∀ b ∈ asBytes host, isOws b = false := by
    intro b hb
    obtain ⟨hcontrol, hspace⟩ := hhost b hb
    have htab : b ≠ 9 := ne_of_not_control hcontrol (by decide)
    simp [isOws, hspace, htab]
  have hvalue : fieldValue (asBytes "Host") (fieldLine "Host" host) = some (asBytes host) := by
    have hname : asBytes "Host" = [72, 111, 115, 116] := by decide
    simp only [fieldValue, fieldLine, hname]
    simp [trimOws_space hows]
  rw [hostField, splitLines_append hline, splitLines_append hcr, List.tail_cons, List.findSome?_cons,
    hvalue]

/-- The host that `build_raw_request` is given is the `Host` of the request. -/
theorem hostField_buildRawRequest {method path host raw : String} {headers : List (String × String)}
    {body : Option Bytes} (hhost : ∀ b ∈ asBytes host, isAsciiControl b = false ∧ b ≠ 32)
    (h : buildRawRequest method path host headers body = .ok raw) :
    hostField (asBytes raw) = some (asBytes host) := by
  have hchecked := checked_of_ok h
  have hraw := hchecked.raw_eq
  simp only [requestLines, requestFields, List.cons_append, List.map_cons, joinLines,
    List.flatMap_cons, List.append_assoc, List.nil_append] at hraw
  rw [hraw]
  exact hostField_eq hchecked.requestLine.noCr hhost

/-- So is the host that `WsClient::connect` is given. -/
theorem hostField_request {endpoint : Ws.Endpoint}
    (hpath : ∀ b ∈ asBytes endpoint.path, isAsciiControl b = false ∧ b ≠ 32)
    (hhost : ∀ b ∈ asBytes endpoint.host, isAsciiControl b = false ∧ b ≠ 32) (key : String) :
    hostField (endpoint.request key) = some (asBytes endpoint.host) := by
  have hversion : asBytes " HTTP/1.1\r\nHost: " =
      32 :: asBytes "HTTP/1.1" ++ 13 :: 10 :: asBytes "Host" ++ [58, 32] := by decide
  have hupgrade : asBytes "\r\nUpgrade: websocket\r\n" =
      13 :: 10 :: asBytes "Upgrade: websocket\r\n" := by decide
  have hline : 13 ∉ asBytes "GET " ++ (asBytes endpoint.path ++ 32 :: asBytes "HTTP/1.1") := by
    simp only [List.mem_append, List.mem_cons]
    rintro (hmem | hmem | hmem | hmem)
    · exact absurd hmem (by decide)
    · exact absurd (hpath 13 hmem).1 (by decide)
    · exact absurd hmem (by decide)
    · exact absurd hmem (by decide)
  obtain ⟨rest, hrest⟩ : ∃ rest, endpoint.request key =
      asBytes "GET " ++ (asBytes endpoint.path ++ 32 :: asBytes "HTTP/1.1") ++
        13 :: 10 :: (fieldLine "Host" endpoint.host ++ 13 :: 10 :: rest) := by
    refine ⟨?_, ?_⟩
    rotate_left
    · simp only [Ws.Endpoint.request, fieldLine, asBytes_append, toString, hversion, hupgrade,
        List.append_assoc, List.cons_append, List.nil_append]
      rfl
  rw [hrest]
  exact hostField_eq hline hhost

theorem pushHeaders_ok {body : Option Bytes} {headers : List (String × String)}
    (h : ∀ header ∈ headers, invalidHeader header.1 header.2 = false) (raw : String) :
    ∃ raw', pushHeaders body headers raw = .ok raw' := by
  induction headers generalizing raw with
  | nil => exact ⟨raw, rfl⟩
  | cons header headers ih =>
    obtain ⟨key, value⟩ := header
    have hvalid : ¬invalidHeader key value = true := by simpa using h _ List.mem_cons_self
    have hrest := ih fun header hmem => h header (List.mem_cons_of_mem _ hmem)
    rw [pushHeaders, if_neg hvalid]
    split_ifs
    · exact hrest raw
    · exact hrest _

/-- A request whose method and headers are accepted. -/
structure HttpRequest.Valid (request : HttpRequest) : Prop where
  method_ne : request.method ≠ ""
  methodOk : ∀ b ∈ asBytes request.method, isHttpTokenByte b = true
  headersOk : ∀ header ∈ request.headers, invalidHeader header.1 header.2 = false

namespace Url

variable (url : Url)

theorem hostBytes : ∀ b ∈ asBytes url.host, isAsciiControl b = false ∧ b ≠ 32 := fun _ =>
  not_control_of_mem_asBytes fun c hc => (url.hostOk c hc).2.2

theorem head?_path : url.path.toList.head? = some '/' := by
  unfold path
  split_ifs with hempty
  · rfl
  · exact url.target_eq.resolve_left hempty

theorem pathBytes : ∀ b ∈ asBytes url.path, isAsciiControl b = false ∧ b ≠ 32 := by
  intro b
  refine not_control_of_mem_asBytes fun c hc => ?_
  unfold path at hc
  split_ifs at hc
  · rw [List.mem_singleton.mp hc]
    rfl
  · exact url.targetOk c hc

/-- The host and the path of a URL pass the filters. -/
theorem buildRawRequest_ok {request : HttpRequest} (h : request.Valid) (body : Option Bytes) :
    ∃ raw, buildRawRequest request.method url.path url.host request.headers body = .ok raw := by
  have hmethod : ¬(request.method.isEmpty || !(asBytes request.method).all isHttpTokenByte) = true := by
    simpa using ⟨h.method_ne, h.methodOk⟩
  have hpath : ¬(decide (url.path.toList.head? ≠ some '/') ||
      (asBytes url.path).any fun byte => isAsciiControl byte || byte = 0x20) = true := by
    simpa using ⟨url.head?_path, url.pathBytes⟩
  have hhost : ¬(url.host.isEmpty ||
      (asBytes url.host).any fun byte => isAsciiControl byte || isAsciiWhitespace byte) = true := by
    have hbytes : ∀ b ∈ asBytes url.host, isAsciiControl b = false ∧ isAsciiWhitespace b = false := by
      intro b hb
      obtain ⟨hcontrol, hspace⟩ := url.hostBytes b hb
      refine ⟨hcontrol, ?_⟩
      have htab : b ≠ 9 := ne_of_not_control hcontrol (by decide)
      have hlf : b ≠ 10 := ne_of_not_control hcontrol (by decide)
      have hff : b ≠ 12 := ne_of_not_control hcontrol (by decide)
      have hcr : b ≠ 13 := ne_of_not_control hcontrol (by decide)
      simp [isAsciiWhitespace, htab, hlf, hff, hcr, hspace]
    simpa using ⟨url.host_ne, hbytes⟩
  obtain ⟨raw, hraw⟩ := pushHeaders_ok h.headersOk (requestHead request.method url.path url.host)
  rw [buildRawRequest, if_neg hmethod, if_neg hpath, if_neg hhost, hraw]
  exact ⟨_, rfl⟩

/-- What is dialed for a URL. -/
def outbound (qemu : Bool) (raw : String) : Outbound :=
  ⟨raw, qemuHost qemu url.host, url.portOrDefault, url.scheme.useTls⟩

variable {request : HttpRequest} {qemu : Bool}

theorem execute_eq (hurl : request.url = url.text) {free : ℕ} (hfree : minHeapForBufferedFetch ≤ free) :
    execute qemu free request =
      (buildRawRequest request.method url.path url.host request.headers request.body).map
        (url.outbound qemu) := by
  rw [execute, if_neg (by omega), hurl, parseUrl_text]
  cases hraw : buildRawRequest request.method url.path url.host request.headers request.body with
  | error e => simp only [bind, Except.bind, hraw, Except.map]
  | ok raw => simp only [bind, Except.bind, hraw, Except.map, outbound]

theorem executeStreaming_eq (hurl : request.url = url.text) :
    executeStreaming qemu request =
      (buildRawRequest request.method url.path url.host request.headers none).map
        (url.outbound qemu) := by
  rw [executeStreaming, hurl, parseUrl_text]
  cases hraw : buildRawRequest request.method url.path url.host request.headers none with
  | error e => simp only [bind, Except.bind, hraw, Except.map]
  | ok raw => simp only [bind, Except.bind, hraw, Except.map, outbound]

theorem wsEndpoint_eq (nonce : Bytes) : wsEndpoint url.text nonce =
    .ok ⟨url.host, url.path, s!"https://{url.host}", nonce⟩ := by
  rw [wsEndpoint, parseUrl_text]
  rfl

/-- Only without a port is the authority the host. -/
theorem authority_eq_host_iff : url.authority = url.host ↔ url.port = none := by
  unfold authority
  cases url.port with
  | none => simp
  | some port =>
    simp only [reduceCtorEq, iff_false]
    intro h
    have hmem : ':' ∈ url.host.toList := by
      rw [← h]
      simp
    exact url.colon_notMem_host hmem

end Url

/-! ### The authority of a URL -/

/-- A URL is taken apart into what it was written from; and the requests that are then built for it,
by `execute`, by `execute_streaming` and by `WsClient::connect`, carry the authority that stands in
it. -/
structure CarriesAuthority (url : Url) : Prop where
  parsed : parseUrl url.text = .ok ⟨url.host, url.portOrDefault, url.path, url.scheme.useTls⟩
  executed : ∀ qemu free request, request.url = url.text → ∀ sent,
    execute qemu free request = .ok sent → hostField (asBytes sent.raw) = some (asBytes url.authority)
  executes : ∀ qemu free request, request.url = url.text → request.Valid →
    minHeapForBufferedFetch ≤ free → ∃ sent, execute qemu free request = .ok sent
  streamed : ∀ qemu request, request.url = url.text → ∀ sent,
    executeStreaming qemu request = .ok sent →
      hostField (asBytes sent.raw) = some (asBytes url.authority)
  streams : ∀ qemu request, request.url = url.text → request.Valid →
    ∃ sent, executeStreaming qemu request = .ok sent
  upgraded : ∀ nonce, ∃ endpoint, wsEndpoint url.text nonce = .ok endpoint ∧
    ∀ key, hostField (endpoint.request key) = some (asBytes url.authority)

section

variable {url : Url} {request : HttpRequest} {qemu : Bool} {sent : Outbound}

theorem hostField_of_map {body : Option Bytes}
    (h : (buildRawRequest request.method url.path url.host request.headers body).map
      (url.outbound qemu) = .ok sent) : hostField (asBytes sent.raw) = some (asBytes url.host) := by
  cases hraw : buildRawRequest request.method url.path url.host request.headers body with
  | error e =>
    rw [hraw] at h
    cases h
  | ok raw =>
    rw [hraw] at h
    cases h
    exact hostField_buildRawRequest url.hostBytes hraw

/-- A request that `execute` builds carries the host of its URL. -/
theorem hostField_execute (hurl : request.url = url.text) {free : ℕ}
    (h : execute qemu free request = .ok sent) :
    hostField (asBytes sent.raw) = some (asBytes url.host) := by
  by_cases hfree : free < minHeapForBufferedFetch
  · rw [execute, if_pos hfree] at h
    cases h
  · rw [url.execute_eq hurl (Nat.not_lt.mp hfree)] at h
    exact hostField_of_map h

theorem hostField_executeStreaming (hurl : request.url = url.text)
    (h : executeStreaming qemu request = .ok sent) :
    hostField (asBytes sent.raw) = some (asBytes url.host) := by
  rw [url.executeStreaming_eq hurl] at h
  exact hostField_of_map h

end

/-- **The `Host` of a request is the authority of its URL exactly if the URL gives no port.**  A port
is dialed, and is left out of the header. -/
theorem carriesAuthority_iff (url : Url) : CarriesAuthority url ↔ url.port = none := by
  constructor
  · intro h
    -- the request for the upgrade is always built, and shows the host alone
    obtain ⟨endpoint, hendpoint, hhost⟩ := h.upgraded []
    rw [url.wsEndpoint_eq] at hendpoint
    obtain rfl := Except.ok.inj hendpoint
    have hsent := hhost ""
    rw [hostField_request url.pathBytes url.hostBytes, Option.some_inj, asBytes_inj] at hsent
    exact url.authority_eq_host_iff.mp hsent.symm
  · intro h
    have hauthority := url.authority_eq_host_iff.mpr h
    constructor
    case parsed => exact parseUrl_text url
    case executed =>
      intro qemu free request hurl sent hsent
      rw [hauthority]
      exact hostField_execute hurl hsent
    case executes =>
      intro qemu free request hurl hvalid hfree
      obtain ⟨raw, hraw⟩ := url.buildRawRequest_ok hvalid request.body
      rw [url.execute_eq hurl hfree, hraw]
      exact ⟨_, rfl⟩
    case streamed =>
      intro qemu request hurl sent hsent
      rw [hauthority]
      exact hostField_executeStreaming hurl hsent
    case streams =>
      intro qemu request hurl hvalid
      obtain ⟨raw, hraw⟩ := url.buildRawRequest_ok hvalid none
      rw [url.executeStreaming_eq hurl, hraw]
      exact ⟨_, rfl⟩
    case upgraded =>
      intro nonce
      refine ⟨_, url.wsEndpoint_eq nonce, fun key => ?_⟩
      rw [hauthority]
      exact hostField_request url.pathBytes url.hostBytes key

/-- A URL with a port. -/
def socketUrl : Url where
  scheme := .wss
  host := "10.0.2.2"
  port := some 4433
  target := "/socket"
  host_ne := by decide
  hostOk := List.all_iff_forall_prop.mp (by decide)
  target_eq := by decide
  targetOk := List.all_iff_forall_prop.mp (by decide)

/-- The server is told `10.0.2.2`, where the URL says `10.0.2.2:4433`. -/
theorem socketUrl_loses_port : ¬CarriesAuthority socketUrl ∧
    socketUrl.text = "wss://10.0.2.2:4433/socket" ∧ socketUrl.authority = "10.0.2.2:4433" ∧
    hostField (Ws.Endpoint.request ⟨"10.0.2.2", "/socket", "https://10.0.2.2", []⟩ "") =
      some (asBytes "10.0.2.2") := by
  have htext : socketUrl.text = "wss://10.0.2.2:4433/socket" := by decide +kernel
  have hauthority : socketUrl.authority = "10.0.2.2:4433" := by decide +kernel
  have hhost : hostField (Ws.Endpoint.request ⟨"10.0.2.2", "/socket", "https://10.0.2.2", []⟩ "") =
      some (asBytes "10.0.2.2") := by decide +kernel
  refine ⟨?_, htext, hauthority, hhost⟩
  intro h
  obtain ⟨endpoint, hendpoint, hfield⟩ := h.upgraded []
  rw [socketUrl.wsEndpoint_eq] at hendpoint
  obtain rfl := Except.ok.inj hendpoint
  have hsame : some (asBytes "10.0.2.2") = some (asBytes "10.0.2.2:4433") := by
    rw [← hauthority, ← hfield ""]
    exact hhost.symm
  exact absurd hsame (by decide +kernel)

end WhatsappEsp32.Http
