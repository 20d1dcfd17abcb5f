import Cream.Library.PercentCoding
import Mathlib

/-!
# A session of the HTTP server

`HTTPSession.java`, up to the call of `serve`: the bytes of a connection, the search for the
end of the header block, and the decoding of the request line and the headers. A connection
brings its bytes in pieces, one piece for each `read` of the socket; after the last piece it
is closed, or it stays open and silent.

One session object serves the requests of a connection one after the other.
`queryParameterString` is assigned only when a request has a query, and keeps its value for
the next request.

SOURCE: HTTPSession.java:130-186, 306-461, 541-544
-/

set_option autoImplicit false

namespace Cream.Model

open Cream.Library PercentCoding

/-- What is still to be read from a connection. -/
structure Inflow where
  pieces : List Bytes
  closed : Bool
deriving DecidableEq, Repr

/-- All its bytes. -/
def Inflow.bytes (i : Inflow) : Bytes := i.pieces.flatten

/-- A request, as `serve` sees it. -/
structure HttpRequest where
  method : Text
  uri : Text
  headers : List (Text × Text)
  parms : List (Text × Text)
  queryParameterString : Option Text
deriving DecidableEq, Repr

namespace HTTPSession

/-- `BUFSIZE`. -/
def BUFSIZE : Nat := 8192

/-- The search of `findHeaderEnd` from an index on. -/
def findHeaderEndFrom : Nat → Bytes → Nat
  | i, 13 :: 10 :: 13 :: 10 :: _ => i + 4
  | i, 10 :: 10 :: _ => i + 2
  | i, _ :: rest => findHeaderEndFrom (i + 1) rest
  | _, [] => 0

/-- `findHeaderEnd`. -/
def findHeaderEnd (buf : Bytes) : Nat := findHeaderEndFrom 0 buf

/-- The loop of `execute` that fills the buffer until the header block is complete, the
buffer is full or the connection ends; the pieces it leaves. -/
def fill (buf : Bytes) : List Bytes → Bytes × List Bytes
  | [] => (buf, [])
  | piece :: rest =>
    let read := piece.take (BUFSIZE - buf.length)
    let left := piece.drop (BUFSIZE - buf.length)
    let buf := buf ++ read
    if 0 < findHeaderEnd buf ∨ left ≠ [] then (buf, left :: rest) else fill buf rest

/-- `execute` has the header block in `buf`; `rest` is what its input stream gives from
here on (`reset` and `skip`). -/
structure Head where
  buf : Bytes
  splitbyte : Nat
  rest : Inflow

/-- The part of `execute` before `decodeHeader`. `none`: the connection ended, or is still
waiting for bytes. -/
def readHead (inflow : Inflow) : Option Head :=
  let (buf, pieces) := fill [] inflow.pieces
  let splitbyte := findHeaderEnd buf
  if buf = [] then none
  else if splitbyte = 0 ∧ buf.length < BUFSIZE ∧ !inflow.closed then none
  else some {
    buf := buf
    splitbyte := splitbyte
    rest := { pieces := buf.drop splitbyte :: pieces, closed := inflow.closed } }

/-- `NanoHTTPD.decodePercent`; `none` is the exception of `URLDecoder.decode`. -/
def decodePercent (str : Text) : Option Text := formDecode str

/-- The tokens of a `StringTokenizer`. -/
def tokens (delim : Char → Bool) (t : Text) : List Text :=
  (t.splitOnP delim).filter fun token => !token.isEmpty

/-- The delimiters a `StringTokenizer` has by default. -/
def blank (c : Char) : Bool := c = ' ' || c = '\t' || c = '\n' || c = '\r' || c = '\x0c'

/-- `String.trim`. -/
def trim (t : Text) : Text := (t.dropWhile (· ≤ ' ')).rdropWhile (· ≤ ' ')

/-- The text before the first occurrence of a character, and the text after it. -/
def cut (c : Char) : Text → Text × Option Text
  | [] => ([], none)
  | d :: rest =>
    if d = c then ([], some rest)
    else
      let (before, after) := cut c rest
      (d :: before, after)

/-- `decodeParms`: the pairs in the order in which it adds them to the map. -/
def decodeParms (parms : Text) : Option (List (Text × Text)) :=
  (tokens (· = '&') parms).mapM fun e => do
    let (key, value) := cut '=' e
    let key ← decodePercent key
    let value ← (value.map decodePercent).getD (some [])
    some (trim key, value)

/-- What `decodeHeader` reads off the token of the request line that names the target:
`uri`, `parms`, and `queryParameterString` for a session that had `query`. -/
def decodeTarget (query : Option Text) (target : Text) :
    Option (Text × List (Text × Text) × Option Text) := do
  let (path, parms) := cut '?' target
  match parms with
  | some parms =>
    let decoded ← decodeParms parms
    let uri ← decodePercent path
    some (uri, decoded, some parms)
  | none =>
    let uri ← decodePercent path
    some (uri, [], query)

/-- The header lines, up to the first blank one; a name that comes again has its last
value. -/
def decodeHeaders : List Text → List (Text × Text) → List (Text × Text)
  | [], headers => headers
  | line :: rest, headers =>
    if (trim line).isEmpty then headers
    else
      match cut ':' line with
      | (_, none) => decodeHeaders rest headers
      | (name, some value) =>
        let key := (trim name).map Char.toLower
        decodeHeaders rest (headers.filter (fun h => h.1 ≠ key) ++ [(key, trim value)])

/-- `decodeHeader`; `none` is an exception, after which `serve` is not called. -/
def decodeHeader (query : Option Text) (text : Text) : Option HttpRequest :=
  match Text.lines (Text.universalNewlines text) with
  | [] => none
  | inLine :: rest =>
    match tokens blank inLine with
    | method :: target :: _ => do
      let (uri, parms, query) ← decodeTarget query target
      some {
        method := method
        uri := uri
        headers := decodeHeaders rest []
        parms := parms
        queryParameterString := query }
    | _ => none

/-- The names of `Method`. -/
def methods : List Text :=
  ["GET", "PUT", "POST", "DELETE", "HEAD", "OPTIONS", "TRACE", "CONNECT", "PATCH", "PROPFIND",
    "PROPPATCH", "MKCOL", "MOVE", "COPY", "LOCK", "UNLOCK", "NOTIFY", "SUBSCRIBE"].map
      String.toList

/-- `execute` up to the call of `serve`: the request, and what the input stream of the
session gives. -/
def receive (query : Option Text) (inflow : Inflow) : Option (HttpRequest × Inflow) := do
  let head ← readHead inflow
  let request ← decodeHeader query (utf8Decode head.buf)
  if request.method ∈ methods then some (request, head.rest) else none

end HTTPSession

end Cream.Model
