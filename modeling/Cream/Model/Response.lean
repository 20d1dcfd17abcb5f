import Cream.Library.HttpMessage
import Mathlib

/-!
# The response of the API proxy

The branch of `WebService.HttpServer.serve` that turns what `HttpURLConnection` presents of a
response into a `Response`, and `Response.send`, which writes it. Texts of heads are kept as
the bytes they were read from; what reading them and writing them again in some charset makes
of them is the business of the runtime (`Charset.carry`), which is a parameter, as are the
clock and the gzip compressor.

The headers of a `Response` are a map with one value for each name, and a second map with
the names in lower case. A connection presents the status line under the key `null`, which
the writer spells out.

SOURCE: WebService.kt:590-603, Response.java:85-145, 225-365
-/

set_option autoImplicit false

namespace Cream.Model

open Cream.Library HttpMessage

/-! ## The runtime -/

/-- A charset that writes ASCII as it is: what becomes of the bytes of a head value that
were read as a text and are written in the charset. -/
structure Charset where
  carry : Bytes → Bytes
  ascii : ∀ v : Bytes, (∀ b ∈ v, b < 128) → carry v = v
  value : ∀ v : Bytes, IsValue v → IsValue (carry v)

/-- What `OutputStreamWriter` makes of the name of a charset. -/
inductive Encoding where
  /-- there is none of that name -/
  | unsupported
  | compatible (c : Charset)
  /-- one that writes ASCII otherwise -/
  | foreign (encode : Bytes → Bytes)
    (h : ∀ head, version <+: head → ∀ rest, ¬version <+: encode head ++ rest)

/-- What the program uses of its runtime. -/
structure Runtime where
  charset : Bytes → Encoding
  /-- the date of the clock, formatted -/
  now : Bytes
  now_value : IsValue now
  now_ascii : ∀ b ∈ now, b < 128
  /-- what a `GZIPOutputStream` writes when it is given some bytes and finished -/
  gzip : List Bytes → List Bytes
  gzip_ne_nil : ∀ writes, (gzip writes).flatten ≠ []

/-! ## The connection to Moonraker -/

/-- What `HttpURLConnection` presents of a response. `head` says that it answers a `HEAD`
request; the streams are given by what each `read` returns. -/
structure HttpURLConnection where
  head : Bool
  responseCode : Nat
  responseMessage : Option Bytes
  contentType : Option Bytes
  headerFields : List (Option Bytes × List Bytes)
  inputStream : List Bytes
  errorStream : Option (List Bytes)
  keys : (headerFields.map Prod.fst).Nodup
  names : ∀ f ∈ headerFields, ∀ name ∈ f.1, IsToken name
  values : ∀ f ∈ headerFields, f.2 ≠ [] ∧ ∀ v ∈ f.2, IsValue v
  message : ∀ m ∈ responseMessage, IsValue m
  /-- the content type is a value of the header of that name -/
  typed : ∀ t ∈ contentType, ∃ f ∈ headerFields, ∃ name ∈ f.1,
    lowered name = ascii "content-type" ∧ t ∈ f.2
  untyped : contentType = none → ∀ f ∈ headerFields, ∀ name ∈ f.1,
    lowered name ≠ ascii "content-type"
  /-- a response that has no body gives no bytes -/
  noBody : bodiless head responseCode = true →
    inputStream.flatten = [] ∧ (errorStream.getD []).flatten = []

namespace HttpURLConnection

/-- The stream `serve` takes the body from. -/
def responseStream (con : HttpURLConnection) : Option (List Bytes) :=
  if 200 ≤ con.responseCode ∧ con.responseCode ≤ 299 then some con.inputStream
  else con.errorStream

/-- The header lines of the response. -/
def fields (con : HttpURLConnection) : List (Bytes × Bytes) :=
  con.headerFields.flatMap fun (name, values) =>
    match name with
    | some name => values.map fun v => (name, v)
    | none => []

/-- The body of the response. -/
def body (con : HttpURLConnection) : Bytes := (con.responseStream.getD []).flatten

end HttpURLConnection

/-! ## `Status` -/

/-- The values of `Status`. -/
def Status.values : List (Nat × String) :=
  [(101, "Switching Protocols"), (200, "OK"), (201, "Created"), (202, "Accepted"),
    (204, "No Content"), (206, "Partial Content"), (207, "Multi-Status"),
    (301, "Moved Permanently"), (302, "Found"), (303, "See Other"), (304, "Not Modified"),
    (307, "Temporary Redirect"), (400, "Bad Request"), (401, "Unauthorized"),
    (403, "Forbidden"), (404, "Not Found"), (405, "Method Not Allowed"),
    (406, "Not Acceptable"), (408, "Request Timeout"), (409, "Conflict"), (410, "Gone"),
    (411, "Length Required"), (412, "Precondition Failed"), (413, "Payload Too Large"),
    (415, "Unsupported Media Type"), (416, "Requested Range Not Satisfiable"),
    (417, "Expectation Failed"), (429, "Too Many Requests"), (500, "Internal Server Error"),
    (501, "Not Implemented"), (503, "Service Unavailable"), (505, "HTTP Version Not Supported")]

/-- `Status.lookup`, as the description of what it finds. -/
def Status.lookup (requestStatus : Nat) : Option Bytes :=
  (Status.values.find? fun s => s.1 = requestStatus).map fun s =>
    ascii (toString s.1 ++ " " ++ s.2)

/-! ## `ContentType` -/

namespace ContentType

/-- The group of `CHARSET_PATTERN`, if it matches at the start. -/
def charsetHere (header : Bytes) : Option Bytes :=
  let skip (b : UInt8) : Bool := b = 32 || b = 9 || b = 124
  if lowered (header.take 7) = ascii "charset" then
    match (header.drop 7).dropWhile skip with
    | 61 :: value =>
      let value := value.dropWhile skip
      let value := if value.head?.any fun b => b = 39 || b = 124 || b = 34 then value.drop 1 else value
      some (value.takeWhile fun b => b ≠ 34 && b ≠ 94 && b ≠ 39 && b ≠ 59 && b ≠ 44)
    | _ => none
  else none

/-- The group of the first match of `CHARSET_PATTERN`. -/
def charset : Bytes → Option Bytes
  | [] => none
  | b :: rest => (charsetHere (b :: rest)).or (charset rest)

/-- `new ContentType(header).getEncoding()`. -/
def getEncoding : Option Bytes → Bytes
  | none => ascii "UTF-8"
  | some header => (charset header).getD (ascii "US-ASCII")

end ContentType

/-! ## `Response` -/

inductive GzipUsage where
  | DEFAULT
  | ALWAYS
  | NEVER
deriving DecidableEq, Repr

structure Response where
  status : Bytes
  mimeType : Option Bytes
  data : List Bytes
  contentLength : Int
  header : List (Option Bytes × Bytes)
  lowerCaseHeader : List (Option Bytes × Bytes)
  head : Bool
  chunkedTransfer : Bool
  keepAlive : Bool
  gzipUsage : GzipUsage

namespace Response

/-- `Map.put`. -/
def put (map : List (Option Bytes × Bytes)) (key : Option Bytes) (value : Bytes) :
    List (Option Bytes × Bytes) :=
  map.filter (fun e => e.1 ≠ key) ++ [(key, value)]

/-- `Map.get`. -/
def get (map : List (Option Bytes × Bytes)) (key : Option Bytes) : Option Bytes :=
  (map.find? fun e => e.1 = key).map Prod.snd

/-- The constructor. -/
def new (status : Bytes) (mimeType : Option Bytes) (data : Option (List Bytes))
    (totalBytes : Int) : Response :=
  let contentLength := if data.isNone then 0 else totalBytes
  { status := status
    mimeType := mimeType
    data := data.getD []
    contentLength := contentLength
    header := []
    lowerCaseHeader := []
    head := false
    chunkedTransfer := contentLength < 0
    keepAlive := true
    gzipUsage := .DEFAULT }

/-- `newChunkedResponse`. -/
def newChunkedResponse (status : Bytes) (mimeType : Option Bytes) (data : Option (List Bytes)) :
    Response :=
  new status mimeType data (-1)

/-- `addHeader`. -/
def addHeader (r : Response) (name : Option Bytes) (value : Bytes) : Response :=
  { r with
    header := put r.header name value
    lowerCaseHeader := put r.lowerCaseHeader (name.map lowered) value }

/-- `getHeader`. -/
def getHeader (r : Response) (name : Bytes) : Option Bytes := get r.lowerCaseHeader (some (lowered name))

/-- `String.contains`. -/
def contains (text part : Bytes) : Bool := text.tails.any part.isPrefixOf

/-- `useGzipWhenAccepted`. -/
def useGzipWhenAccepted (r : Response) : Bool :=
  match r.gzipUsage with
  | .DEFAULT => r.mimeType.any fun m =>
      contains (lowered m) (ascii "text/") || contains (lowered m) (ascii "/json")
  | .ALWAYS => true
  | .NEVER => false

/-- `Long.parseLong`. -/
def parseLong (text : Bytes) : Option Int :=
  match text with
  | 45 :: digits => (decimal digits).bind fun n => if n ≤ 2 ^ 63 then some (-n) else none
  | 43 :: digits => (decimal digits).bind fun n => if n < 2 ^ 63 then some n else none
  | digits => (decimal digits).bind fun n => if n < 2 ^ 63 then some n else none

/-- A number, as `print` writes it. -/
def printed (n : Int) : Bytes := ascii (toString n)

/-- `sendBody`: the writes it makes. -/
def sendBody (data : List Bytes) (pending : Int) : List Bytes :=
  if pending = -1 then data else [data.flatten.take pending.toNat]

/-- `sendBodyWithCorrectEncoding`: the writes it makes. -/
def sendBodyWithCorrectEncoding (rt : Runtime) (r : Response) (pending : Int) : List Bytes :=
  if r.useGzipWhenAccepted then rt.gzip (sendBody r.data (-1)) else sendBody r.data pending

/-- `sendBodyWithCorrectTransferAndEncoding`. -/
def sendBodyWithCorrectTransferAndEncoding (rt : Runtime) (r : Response) (pending : Int) : Bytes :=
  if !r.head && r.chunkedTransfer then writeChunks (sendBodyWithCorrectEncoding rt r (-1))
  else (sendBodyWithCorrectEncoding rt r pending).flatten

/-- The response as `send` has it when it comes to the framing. -/
def settled (r : Response) : Response :=
  let r := if (r.getHeader (ascii "content-length")).isSome then { r with gzipUsage := .NEVER } else r
  if r.useGzipWhenAccepted then { r with chunkedTransfer := true } else r

/-- The header lines `send` prints before it comes to the framing. -/
def printedHeaders (rt : Runtime) (r : Response) : List (Bytes × Bytes) :=
  (r.mimeType.map fun m => (ascii "Content-Type", m)).toList ++
    (if (r.getHeader (ascii "date")).isNone then [(ascii "Date", rt.now)] else []) ++
    r.header.map (fun (key, value) => (key.getD (ascii "null"), value)) ++
    (if (r.getHeader (ascii "connection")).isNone then
      [(ascii "Connection", if r.keepAlive then ascii "keep-alive" else ascii "close")] else []) ++
    (if r.settled.useGzipWhenAccepted then [(ascii "Content-Encoding", ascii "gzip")] else [])

/-- The header lines of the framing, and the number of bytes that are sent. -/
def framing (r : Response) : List (Bytes × Bytes) × Int :=
  let pending := r.contentLength
  if !r.head && r.chunkedTransfer then ([(ascii "Transfer-Encoding", ascii "chunked")], pending)
  else if !r.useGzipWhenAccepted then
    match r.getHeader (ascii "content-length") with
    | some length => ([], (parseLong length).getD pending)
    | none => ([(ascii "Content-Length", printed pending)], pending)
  else ([], pending)

/-- `send`: the bytes it writes. -/
def send (rt : Runtime) (r : Response) : Bytes :=
  let (lines, pending) := r.settled.framing
  let fields := r.printedHeaders rt ++ lines
  let rest := sendBodyWithCorrectTransferAndEncoding rt r.settled pending
  match rt.charset (ContentType.getEncoding r.mimeType) with
  | .unsupported => []
  | .compatible c =>
    writeHead (version ++ c.carry r.status ++ [32])
      (fields.map fun (name, value) => (c.carry name, c.carry value)) ++ rest
  | .foreign encode _ => encode (writeHead (version ++ r.status ++ [32]) fields) ++ rest

end Response

namespace WebService

/-- The response `serve` makes of what the connection presents. -/
def relay (con : HttpURLConnection) : Response :=
  let resStatus := (Status.lookup con.responseCode).getD
    (con.responseMessage.getD (ascii "Unknown"))
  let r := Response.newChunkedResponse resStatus con.contentType con.responseStream
  let r := con.headerFields.foldl (fun r (key, values) =>
    values.foldl (fun r value => r.addHeader key value) r) r
  r.addHeader (some (ascii "Connection")) (ascii "close")

/-- The response as `HTTPSession.execute` hands it to `send`. -/
def execute (con : HttpURLConnection) (acceptsGzip keepAlive : Bool) : Response :=
  let r := relay con
  { r with
    head := con.head
    gzipUsage := if acceptsGzip then r.gzipUsage else .NEVER
    keepAlive := keepAlive }

/-- What the client gets. -/
def answer (rt : Runtime) (con : HttpURLConnection) (acceptsGzip keepAlive : Bool) : Bytes :=
  (execute con acceptsGzip keepAlive).send rt

end WebService

end Cream.Model
