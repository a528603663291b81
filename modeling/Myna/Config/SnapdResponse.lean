import Myna.Config.ApplyPlan
import Myna.Core.Audio
import Myna.Desktop.CommitBuffer
import Myna.Lib.Arrivals

/-!
# Myna — snapd's responses (`myna_config::adapters::snapd_client`)

`read_response` appends what each read brings to a buffer until the header block is in it, and reads
the body in the framing that the headers declare. What `std` and `serde_json` answer is a parameter,
`Std`; a read that times out or is cancelled is left out.

* **`parseHeaders`** — the framing the headers declare;
* **`decodeChunked`** — one step of the chunked framing, over what has been read;
* **`readResponse`** — the three framings, over the reads and the end of the connection.
-/

namespace Myna

namespace Config

namespace Snapd

def MAX_RESPONSE_BYTES : ℕ := 1024 * 1024

def MAX_HEADER_BYTES : ℕ := 32 * 1024

def MAX_CHUNK_BYTES : ℕ := MAX_RESPONSE_BYTES

/-- The length of `scratch`: what one read brings at most. -/
def READ_BYTES : ℕ := 8 * 1024

/-- `from_utf8`, with the text of its error; what `:?` writes of a text; and the `type` of an
envelope that `serde_json` can read. -/
structure Std where
  fromUtf8 : Bytes → Except (List Char) (List Char)
  debug : List Char → List Char
  envelopeType : List Char → Option (List Char)

/-- The `body` of an error: a text, or what `from_utf8_lossy` makes of some bytes. -/
inductive Quoted
  | text (text : List Char)
  | lossy (bytes : Bytes)

inductive SnapdError
  | protocol (message : List Char) (body : Quoted)
  | responseTooLarge
  | snapd (statusCode : ℕ) (message : List Char)

structure Headers where
  statusCode : ℕ
  contentLength : Option ℕ
  chunked : Bool

section

variable (std : Std)

/-! ## Texts -/

def trim (text : List Char) : List Char := text.strip Desktop.isWhitespace

def eqIgnoreAsciiCase (a b : List Char) : Bool := a.map Char.toLower = b.map Char.toLower

/-- `text.split("\r\n")`, after `current`. -/
def splitCrlf (current : List Char) : List Char → List (List Char)
  | '\r' :: '\n' :: rest => current :: splitCrlf [] rest
  | c :: rest => splitCrlf (current ++ [c]) rest
  | [] => [current]

/-- The parts of a comma-separated value that say something. -/
def commaParts (value : List Char) : List (List Char) :=
  ((value.splitOn ',').map trim).filter (· ≠ [])

/-- `usize::from_str`. -/
def parseUsize (text : List Char) : Option ℕ :=
  let digits := match text with
    | '+' :: rest => rest
    | _ => text
  let value := digits.foldl (fun n c => 10 * n + digitValue c) 0
  if digits ≠ [] ∧ digits.all isAsciiDigit ∧ value < 2 ^ 64 then some value else none

/-- The bytes of a text in UTF-8 that fit into `max`, in whole characters. -/
def fitting (max : ℕ) : List Char → List Char
  | [] => []
  | c :: rest => if c.utf8Size ≤ max then c :: fitting (max - c.utf8Size) rest else []

def truncate (text : List Char) (max : ℕ) : List Char :=
  if (text.map Char.utf8Size).sum ≤ max then text else fitting max text ++ ['…']

/-! ## Headers -/

def protocolText (message : List Char) (body : List Char) : SnapdError :=
  .protocol message (.text body)

/-- The values of one `Content-Length`, which have to agree. -/
def agreedLength (line value : List Char) : Option ℕ → List (List Char) → Except SnapdError ℕ
  | some agreed, [] => .ok agreed
  | none, [] =>
    .error (protocolText ("invalid Content-Length: ".toList ++ std.debug value) line)
  | agreed, part :: parts =>
    match parseUsize part with
    | none => .error (protocolText ("invalid Content-Length: ".toList ++ std.debug value) line)
    | some parsed =>
      if agreed = none ∨ agreed = some parsed then agreedLength line value (some parsed) parts
      else
        .error (protocolText ("conflicting Content-Length values: ".toList ++ std.debug value) line)

/-- `Transfer-Encoding` is bare `chunked`. -/
def soleCoding (line value : List Char) : Except SnapdError Unit :=
  match commaParts value with
  | [] => .error (protocolText "empty Transfer-Encoding".toList line)
  | [single] =>
    if eqIgnoreAsciiCase single "chunked".toList then .ok ()
    else .error (protocolText ("unsupported Transfer-Encoding: ".toList ++ std.debug value) line)
  | _ => .error (protocolText ("unsupported Transfer-Encoding: ".toList ++ std.debug value) line)

/-- The variables of `parse_headers`. -/
structure Framing where
  contentLength : Option ℕ := none
  chunked : Bool := false
  sawTransferEncoding : Bool := false

/-- One turn of the loop over the lines. -/
def Framing.line (framing : Framing) (line : List Char) : Except SnapdError Framing :=
  match List.splitOnce [':'] line with
  -- an empty line, as any without a colon, is passed over
  | none => .ok framing
  | some (name, value) =>
    let name := trim name
    let value := trim value
    if eqIgnoreAsciiCase name "content-length".toList then do
      let newLen ← agreedLength std line value none (commaParts value)
      match framing.contentLength with
      | some existing =>
        if existing ≠ newLen then
          .error (protocolText ("conflicting Content-Length headers: ".toList ++
            (toString existing).toList ++ " vs ".toList ++ (toString newLen).toList) line)
        else .ok { framing with contentLength := some newLen }
      | none => .ok { framing with contentLength := some newLen }
    else if eqIgnoreAsciiCase name "transfer-encoding".toList then do
      soleCoding std line value
      .ok { framing with chunked := true, sawTransferEncoding := true }
    else .ok framing

def parseHeaders (text : List Char) : Except SnapdError Headers := do
  let lines := splitCrlf [] text
  let statusLine := lines.headD []
  let version := statusLine.takeWhile (· ≠ ' ')
  let codeStr := ((statusLine.dropWhile (· ≠ ' ')).drop 1).takeWhile (· ≠ ' ')
  if ¬"HTTP/1.".toList.isPrefixOf version then
    .error (protocolText ("unsupported HTTP version: ".toList ++ version) statusLine)
  else
    match parseU16 codeStr with
    | none =>
      .error (protocolText ("invalid HTTP status code: ".toList ++ std.debug codeStr) statusLine)
    | some statusCode =>
      let framing ← lines.tail.foldlM (Framing.line std) {}
      if framing.sawTransferEncoding ∧ framing.contentLength.isSome then
        .error (protocolText
          "response declared both Transfer-Encoding and Content-Length".toList [])
      else .ok ⟨statusCode, framing.contentLength, framing.chunked⟩

/-! ## Chunks -/

def CRLF : Bytes := [13, 10]

def findCrlf (buffer : Bytes) : Option ℕ := CRLF.position buffer

def findDoubleCrlf (buffer : Bytes) : Option ℕ := (CRLF ++ CRLF).position buffer

def isAsciiHexdigit (c : Char) : Bool :=
  isAsciiDigit c || ('a' ≤ c && c ≤ 'f') || ('A' ≤ c && c ≤ 'F')

def hexdigitValue (c : Char) : ℕ :=
  if isAsciiDigit c then digitValue c else c.toLower.toNat - 'a'.toNat + 10

/-- The length a chunk's first line announces. -/
def chunkSize (line : Bytes) : Except SnapdError ℕ :=
  match std.fromUtf8 line with
  | .error error => .error (protocolText ("invalid chunk header: ".toList ++ error) [])
  | .ok header =>
    let sizeStr := trim (header.takeWhile (· ≠ ';'))
    let size := sizeStr.foldl (fun n c => 16 * n + hexdigitValue c) 0
    if sizeStr = [] ∨ ¬sizeStr.all isAsciiHexdigit then
      .error (protocolText ("invalid chunk length ".toList ++ std.debug sizeStr) [])
    else if 2 ^ 64 ≤ size then
      .error (protocolText ("invalid chunk length ".toList ++ std.debug sizeStr ++
        ": number too large to fit in target type".toList) [])
    else if MAX_CHUNK_BYTES < size then .error .responseTooLarge
    else .ok size

/-- What is left in the buffer goes with a chunk and with the end. -/
inductive ChunkStep
  | chunk (data rest : Bytes)
  | needMore
  | complete (rest : Bytes)

def decodeChunked (buffer : Bytes) : Except SnapdError ChunkStep :=
  match findCrlf buffer with
  | none => if MAX_CHUNK_BYTES < buffer.length then .error .responseTooLarge else .ok .needMore
  | some lineEnd => do
    let size ← chunkSize std (buffer.take lineEnd)
    let needed := lineEnd + 2 + size + 2
    if buffer.length < needed then .ok .needMore
    else if (buffer.drop (lineEnd + 2 + size)).take 2 ≠ CRLF then
      .error (protocolText "chunk not terminated by CRLF".toList [])
    else if size = 0 then .ok (.complete (buffer.drop needed))
    else .ok (.chunk ((buffer.drop (lineEnd + 2)).take size) (buffer.drop needed))

/-! ## Reading -/

def headersExceeded : SnapdError :=
  protocolText ("snapd response headers exceeded ".toList ++ (toString MAX_HEADER_BYTES).toList ++
    " bytes without a CRLF CRLF terminator".toList) []

def closedInHeaders (buffer : Bytes) : SnapdError :=
  .protocol "snapd closed the connection before completing headers".toList (.lossy buffer)

/-- The first loop: where the header block ends, the buffer, and the reads that are left. -/
def readHead (buffer : Bytes) : List Bytes → Except SnapdError (ℕ × Bytes × List Bytes)
  | [] =>
    match findDoubleCrlf buffer with
    | some headerEnd => .ok (headerEnd, buffer, [])
    | none =>
      if MAX_HEADER_BYTES ≤ buffer.length then .error headersExceeded
      else .error (closedInHeaders buffer)
  | bytes :: reads =>
    match findDoubleCrlf buffer with
    | some headerEnd => .ok (headerEnd, buffer, bytes :: reads)
    | none =>
      if MAX_HEADER_BYTES ≤ buffer.length then .error headersExceeded
      else readHead (buffer ++ bytes) reads

def closedInLength (body : Bytes) : SnapdError :=
  .protocol "snapd closed the connection before Content-Length was satisfied".toList (.lossy body)

/-- The body of a response with a `Content-Length`. -/
def readLength (len : ℕ) (body : Bytes) : List Bytes → Except SnapdError Bytes
  | [] => if body.length < len then .error (closedInLength body) else .ok (body.take len)
  | bytes :: reads =>
    if body.length < len then
      if MAX_RESPONSE_BYTES < body.length + bytes.length then .error .responseTooLarge
      else readLength len (body ++ bytes) reads
    else .ok (body.take len)

def closedInChunks (pending : Bytes) : SnapdError :=
  .protocol "snapd closed the connection during chunked transfer".toList (.lossy pending)

/-- A chunk takes its line and two line breaks off the buffer. -/
theorem length_rest_of_chunk {buffer data rest : Bytes}
    (h : decodeChunked std buffer = .ok (.chunk data rest)) : rest.length < buffer.length := by
  unfold decodeChunked at h
  split at h
  · split at h <;> cases h
  · next lineEnd _ =>
    cases hsize : chunkSize std (buffer.take lineEnd) with
    | error e =>
      rw [hsize] at h
      cases h
    | ok size =>
      rw [hsize] at h
      simp only [bind, Except.bind] at h
      split at h
      · cases h
      · split at h
        · cases h
        · split at h
          · cases h
          · next hlong _ _ =>
            cases h
            rw [List.length_drop]
            omega

/-- The body of a chunked response. -/
def readChunked (body pending : Bytes) (reads : List Bytes) : Except SnapdError Bytes :=
  match _ : decodeChunked std pending with
  | .error error => .error error
  | .ok (.complete _) => .ok body
  | .ok .needMore =>
    if MAX_CHUNK_BYTES ≤ pending.length then .error .responseTooLarge
    else
      match reads with
      | [] => .error (closedInChunks pending)
      | bytes :: reads => readChunked body (pending ++ bytes) reads
  | .ok (.chunk data rest) =>
    if MAX_RESPONSE_BYTES < body.length + data.length then .error .responseTooLarge
    else readChunked (body ++ data) rest reads
termination_by pending.length + reads.flatten.length + reads.length
decreasing_by
  · simp only [List.length_append, List.flatten_cons, List.length_cons]
    omega
  · have hless := length_rest_of_chunk std ‹_›
    omega

/-- The body of a response that ends with the connection. -/
def readToClose (body : Bytes) : List Bytes → Except SnapdError Bytes
  | [] => .ok body
  | bytes :: reads =>
    if MAX_RESPONSE_BYTES < body.length + bytes.length then .error .responseTooLarge
    else readToClose (body ++ bytes) reads

/-- What is asked of a body that was read; a `String` is its bytes. -/
def acceptBody (headers : Headers) (body : Bytes) : Except SnapdError Bytes :=
  match std.fromUtf8 body with
  | .error error => .error (protocolText ("body was not valid UTF-8: ".toList ++ error) [])
  | .ok text =>
    if 200 ≤ headers.statusCode ∧ headers.statusCode < 300 then .ok body
    else if std.envelopeType text = some "error".toList then .ok body
    else
      .error (.snapd headers.statusCode ("snapd HTTP ".toList ++
        (toString headers.statusCode).toList ++ ", body: ".toList ++ truncate text 512))

/-- The body, in the framing the headers declare. -/
def readBody (headers : Headers) (rest : Bytes) (reads : List Bytes) : Except SnapdError Bytes :=
  match headers.contentLength with
  | some len =>
    if MAX_RESPONSE_BYTES < len then .error .responseTooLarge else readLength len rest reads
  | none => if headers.chunked then readChunked std [] rest reads else readToClose rest reads

/-- The header block, as a text and parsed. -/
def headersOf (block : Bytes) : Except SnapdError Headers :=
  match std.fromUtf8 block with
  | .error error => .error (protocolText ("invalid header bytes: ".toList ++ error) [])
  | .ok text => parseHeaders std text

/-- `read_response`, of what the reads bring before the connection is closed. -/
def readResponse (reads : List Bytes) : Except SnapdError Bytes := do
  let (headerEnd, buffer, reads) ← readHead [] reads
  let headers ← headersOf std (buffer.take headerEnd)
  let body ← readBody std headers (buffer.drop (headerEnd + 4)) reads
  acceptBody std headers body

end

end Snapd

end Config

end Myna
