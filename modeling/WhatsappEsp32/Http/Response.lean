import WhatsappEsp32.Http.Chunked
import WhatsappEsp32.Lib.RustStr

/-!
# HTTP responses

The two ways in which `http_client.rs` receives a response: `do_request` reads it to the end of the
stream and parses it, `do_streaming_request` parses its head and hands out a reader of its body.

* `parseStatusCode`, `parseBodyFraming`: the head of a response;
* `parseHttpResponse`, `doRequest`: the buffered path;
* `BodyReader`, `doStreamingRequest`: the streaming path;
* the head is the same with and without its blank line (`parseBodyFraming_blank`).
-/

namespace WhatsappEsp32.Http

open CrashLogic Scripted RustIo RustStr

/-- An error of the client. -/
inductive HttpError
  | message (text : String)
  | io (e : IoError)
  | utf8
  deriving DecidableEq

/-! ### The head -/

/-- `String::from_utf8_lossy`. -/
def fromUtf8Lossy (bytes : Bytes) : Str :=
  match fromUtf8 bytes with
  | some text => text.toList
  | none => lossyAux 0 bytes

/-- `parse_status_code`: the second word of the status line, as a `u16`. -/
def parseStatusCode (headerBytes : Bytes) : Except HttpError ℕ :=
  match lines (fromUtf8Lossy headerBytes) with
  | [] => .error (.message "No status line")
  | statusLine :: _ =>
    match (splitWhitespace statusLine)[1]?.map (parseUnsigned (2 ^ 16 - 1)) with
    | some (.ok status) => .ok status
    | _ => .error (.message ("Malformed status line: " ++ String.ofList statusLine))

/-- How the end of a body is found. -/
inductive BodyFraming
  | close
  | length (n : ℕ)
  | chunked
  deriving DecidableEq

/-- Whether a `Transfer-Encoding` has been seen, after one more field. -/
def transferEncoding (chunked : Bool) (name value : Str) : Except HttpError Bool :=
  if eqIgnoreAsciiCase (trim name) "transfer-encoding".toList then
    if chunked || !eqIgnoreAsciiCase (trim value) "chunked".toList then
      .error (.message ("Unsupported HTTP transfer encoding: " ++ String.ofList (trim value)))
    else
      .ok true
  else
    .ok chunked

/-- The `Content-Length` that has been seen, after one more field. -/
def contentLength (seen : Option ℕ) (name value : Str) : Except HttpError (Option ℕ) :=
  if eqIgnoreAsciiCase (trim name) "content-length".toList then
    match parseUnsigned (2 ^ 64 - 1) (trim value) with
    | .error e => .error (.message e)
    | .ok parsed =>
      if seen.isSome then .error (.message "Duplicate HTTP Content-Length header")
      else .ok (some parsed)
  else
    .ok seen

/-- The loop over the field lines. -/
def framingFields : List Str → Option ℕ → Bool → Except HttpError (Option ℕ × Bool)
  | [], seen, chunked => .ok (seen, chunked)
  | line :: rest, seen, chunked =>
    match splitOnce ':' line with
    | none => framingFields rest seen chunked
    | some (name, value) => do
      let chunked ← transferEncoding chunked name value
      let seen ← contentLength seen name value
      framingFields rest seen chunked

/-- The framing that the fields amount to. -/
def framingOf : Option ℕ × Bool → Except HttpError BodyFraming
  | (some _, true) => .error (.message "Conflicting HTTP Transfer-Encoding and Content-Length")
  | (none, true) => .ok .chunked
  | (some length, false) => .ok (.length length)
  | (none, false) => .ok .close

/-- `parse_body_framing`: the framing that the header lines ask for. -/
def parseBodyFraming (headerBytes : Bytes) : Except HttpError BodyFraming :=
  match fromUtf8 headerBytes with
  | none => .error .utf8
  | some header => framingFields ((lines header.toList).drop 1) none false >>= framingOf

/-! ### The buffered path -/

/-- A whole response: `wacore::net::HttpResponse`. -/
structure HttpResponse where
  statusCode : ℕ
  body : Bytes
  deriving DecidableEq

/-- The blank line that ends the head. -/
def blankLine : Bytes := [13, 10, 13, 10]

/-- The bound on the head of a response. -/
def maxResponseHeaderBytes : ℕ := 8 * 1024

/-- The bound on the body of a buffered response. -/
def maxResponseBodyBytes : ℕ := 1024 * 1024

/-- A slice as a reader. -/
def slice (bytes : Bytes) : Script UInt8 IoError := if bytes = [] then [] else [.data bytes]

/-- The body of a response of which everything has been read.  `sizes` are the sizes of the buffers
that `read_to_end` offers. -/
def takeBody (A : Arch) (sizes : ℕ → ℕ) (framing : BodyFraming) (body : Bytes) :
    Outcome HttpError Bytes :=
  match framing with
  | .chunked =>
    match (readToEnd ChunkedReader.read ((slice body).size + 1) sizes (.new (slice body))).1 with
    | .ok data => .ok data
    | .error e => .error (.io e)
    | .halted => .halted
  | .length n =>
    if A.usizeMax < n then
      .error (.message ("Content-Length " ++ toString n ++ " exceeds address space"))
    else if body.length < n then
      .error (.message ("HTTP response truncated: expected " ++ toString n ++ " bytes, got " ++
        toString body.length))
    else
      .ok (body.take n)
  | .close => .ok body

/-- `parse_http_response`: the status and the decoded body of the bytes received. -/
def parseHttpResponse (A : Arch) (sizes : ℕ → ℕ) (responseBuf : Bytes) :
    Outcome HttpError HttpResponse :=
  match position blankLine responseBuf with
  | none => .error (.message "Malformed HTTP response")
  | some headerEnd =>
    match parseStatusCode (responseBuf.take headerEnd) with
    | .error e => .error e
    | .ok statusCode =>
      match parseBodyFraming (responseBuf.take headerEnd) with
      | .error e => .error e
      | .ok framing =>
        match takeBody A sizes framing (responseBuf.drop (headerEnd + 4)) with
        | .ok body => .ok ⟨statusCode, body⟩
        | .error e => .error e
        | .halted => .halted

/-- The loop that reads a response to the end of the stream. -/
def readResponse : ℕ → Script UInt8 IoError → Bytes → Outcome HttpError Bytes
  | 0, _, _ => .halted
  | fuel + 1, stream, responseBuf =>
    match stream.read 4096 with
    | (.ok [], _) => .ok responseBuf
    | (.ok bytes, stream) =>
      if maxResponseBodyBytes < responseBuf.length + bytes.length then
        .error (.message "HTTP response body exceeds size limit of 1048576 bytes")
      else
        readResponse fuel stream (responseBuf ++ bytes)
    | (.error e, _) =>
      if e.kind = .wouldBlock ∨ e.kind = .timedOut then
        .error (.message "HTTP response timed out after 30s")
      else
        .error (.io e)

/-- The request and its body, one after the other. -/
def sendRequest (stream : Socket IoError) (rawRequest : Bytes) (body : Option Bytes) :
    Except IoError (Socket IoError) := do
  let stream ← stream.writeAll rawRequest
  match body with
  | some body => stream.writeAll body
  | none => .ok stream

/-- `do_request`: the request is written, the response read to its end and parsed. -/
def doRequest (A : Arch) (sizes : ℕ → ℕ) (stream : Socket IoError) (rawRequest : Bytes)
    (body : Option Bytes) : Outcome HttpError HttpResponse :=
  match sendRequest stream rawRequest body with
  | .error e => .error (.io e)
  | .ok stream =>
    match readResponse (stream.inbound.size + 1) stream.inbound [] with
    | .ok responseBuf => parseHttpResponse A sizes responseBuf
    | .error e => .error e
    | .halted => .halted

/-! ### The streaming path -/

/-- The reader of a body: an `ExactLengthReader`, the stream itself, or a `ChunkedReader`. -/
inductive BodyReader
  | exactLength (inner : Script UInt8 IoError) (remaining : ℕ)
  | close (inner : Script UInt8 IoError)
  | chunked (inner : ChunkedReader)

namespace BodyReader

/-- `ExactLengthReader::read`.  Subtracting more than remains panics. -/
def readExactLength (inner : Script UInt8 IoError) (remaining n : ℕ) :
    Outcome IoError Bytes × BodyReader :=
  if n = 0 ∨ remaining = 0 then
    (.ok [], .exactLength inner remaining)
  else
    match inner.read (min remaining n) with
    | (.error e, inner) => (.error e, .exactLength inner remaining)
    | (.ok bytes, inner) =>
      if bytes = [] then
        (.error ⟨.unexpectedEof, "Connection closed prematurely: " ++ toString remaining ++
          " bytes remaining"⟩, .exactLength inner remaining)
      else if remaining < bytes.length then
        (.halted, .exactLength inner remaining)
      else
        (.ok bytes, .exactLength inner (remaining - bytes.length))

/-- `read` of the reader: the framing decides where the body ends. -/
def read (n : ℕ) : Prog BodyReader IoError Bytes
  | .exactLength inner remaining => readExactLength inner remaining n
  | .close inner =>
    match inner.read n with
    | (.ok bytes, inner) => (.ok bytes, .close inner)
    | (.error e, inner) => (.error e, .close inner)
  | .chunked inner => ((ChunkedReader.read n inner).1, .chunked (ChunkedReader.read n inner).2)

end BodyReader

/-- A response whose body is still to be read. -/
structure StreamingHttpResponse where
  statusCode : ℕ
  body : BodyReader

/-- The loop that reads up to the blank line: its end, what was read, and the stream. -/
def readHead : ℕ → Script UInt8 IoError → Bytes →
    Outcome HttpError (ℕ × Bytes × Script UInt8 IoError)
  | 0, _, _ => .halted
  | fuel + 1, stream, headerBuf =>
    match stream.read 512 with
    | (.ok [], _) => .error (.message "Connection closed before headers complete")
    | (.ok bytes, stream) =>
      match position blankLine (headerBuf ++ bytes) with
      | some pos => .ok (pos + 4, headerBuf ++ bytes, stream)
      | none =>
        if maxResponseHeaderBytes < (headerBuf ++ bytes).length then
          .error (.message "HTTP response headers exceed size limit")
        else
          readHead fuel stream (headerBuf ++ bytes)
    | (.error e, _) => .error (.io e)

/-- `Cursor::new(overflow).chain(stream)`. -/
def chain (overflow : Bytes) (stream : Script UInt8 IoError) : Script UInt8 IoError :=
  if overflow = [] then stream else .data overflow :: stream

/-- The reader for the framing of the head. -/
def bodyReader (rest : Script UInt8 IoError) : BodyFraming → BodyReader
  | .length length => .exactLength rest length
  | .close => .close rest
  | .chunked => .chunked (.new rest)

/-- The response whose head has been read. -/
def startBody (headerEnd : ℕ) (headerBuf : Bytes) (stream : Script UInt8 IoError) :
    Except HttpError StreamingHttpResponse := do
  let statusCode ← parseStatusCode (headerBuf.take headerEnd)
  let framing ← parseBodyFraming (headerBuf.take headerEnd)
  .ok ⟨statusCode, bodyReader (chain (headerBuf.drop headerEnd) stream) framing⟩

/-- `do_streaming_request`: only the head is read, the body is left to the caller. -/
def doStreamingRequest (stream : Socket IoError) (rawRequest : Bytes) :
    Outcome HttpError StreamingHttpResponse :=
  match stream.writeAll rawRequest with
  | .error e => .error (.io e)
  | .ok stream =>
    match readHead (stream.inbound.size + 1) stream.inbound [] with
    | .error e => .error e
    | .halted => .halted
    | .ok (headerEnd, headerBuf, stream) =>
      match startBody headerEnd headerBuf stream with
      | .ok response => .ok response
      | .error e => .error e

/-- A client of the streaming path that reads the body to its end. -/
def readStreamed (calls : ℕ) (sizes : ℕ → ℕ) (stream : Socket IoError) (rawRequest : Bytes) :
    Outcome HttpError HttpResponse :=
  match doStreamingRequest stream rawRequest with
  | .error e => .error e
  | .halted => .halted
  | .ok response =>
    match (readToEnd BodyReader.read calls sizes response.body).1 with
    | .ok body => .ok ⟨response.statusCode, body⟩
    | .error e => .error (.io e)
    | .halted => .halted

end WhatsappEsp32.Http
