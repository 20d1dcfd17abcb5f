import Cream.Library.Url
import Cream.Model.HTTPSession

/-!
# The API proxy of the web service

`WebService.HttpServer.serve`, the branch for the targets that match `API_PATTERN`: the
connection to Moonraker it opens, and the body it copies. A body is copied until the input
stream of the session ends; while the connection of the client is open and silent, the copy
waits for it (until the read times out and the request fails).

`java.net.URL` takes a text apart and removes dot segments, but neither escapes nor decodes.
Which characters `HttpURLConnection` escapes when it writes the request line differs between
runtimes, so the set of them is a parameter.

SOURCE: WebService.kt:572-590
-/

set_option autoImplicit false

namespace Cream.Model

open Cream.Library

namespace WebService

/-- The alternatives of `API_PATTERN`. -/
def API_PATTERN : List Text :=
  ["/printer/", "/api/", "/access/", "/machine/", "/server/"].map String.toList

/-- `API_PATTERN.matcher(uri).find()`. -/
def matchesApi (uri : Text) : Bool := API_PATTERN.any fun p => p.isPrefixOf uri

/-- The methods whose body is copied. -/
def bodyMethods : List Text := ["POST", "PUT", "PATCH"].map String.toList

/-- The URL that is opened. -/
def urlStr (port : Nat) (request : HttpRequest) : Text :=
  let qs := request.queryParameterString.getD []
  "http://127.0.0.1:".toList ++ (toString port).toList ++ "/".toList ++ request.uri.drop 1 ++
    if qs.isEmpty then [] else '?' :: qs

/-- The parts of a `java.net.URL` that make up the request line. -/
structure ParsedURL where
  path : Text
  query : Option Text
deriving DecidableEq, Repr

/-- `java.net.URL(spec)`, for an `http` URL with an authority. -/
def URL (spec : Text) : ParsedURL :=
  let (spec, _) := HTTPSession.cut '#' (HTTPSession.trim spec)
  let (spec, query) := HTTPSession.cut '?' spec
  { path := Url.removeDots ((spec.drop "http://".length).dropWhile (· ≠ '/')), query := query }

/-- The target `HttpURLConnection` writes into the request line. -/
def requestTarget (escapes : Char → Bool) (url : ParsedURL) : ParsedURL :=
  { path := Url.wire Url.pathChar escapes url.path
    query := url.query.map (Url.wire Url.queryChar escapes) }

/-- `InputStream.copyTo`: what is written, and whether it came to the end of the stream. -/
def copyTo (out : Bytes) : List Bytes → Bool → Bytes × Bool
  | [], closed => (out, closed)
  | piece :: rest, closed => copyTo (out ++ piece) rest closed

/-- What `serve` has done when it comes to the response, or waits for the client for good:
the request to Moonraker, and the bytes that are left in the input stream of the session. -/
structure Proxied where
  url : Text
  method : Text
  properties : List (Text × Text)
  body : Option Bytes
  unread : Bytes
  /-- it has come to `con.responseCode` -/
  responding : Bool

/-- `serve` on a target that matches `API_PATTERN`. -/
def serveApi (port : Nat) (request : HttpRequest) (input : Inflow) : Option Proxied :=
  if matchesApi request.uri then
    let con : Proxied := {
      url := urlStr port request
      method := request.method
      properties := []
      body := none
      unread := input.bytes
      responding := true }
    if request.method ∈ bodyMethods then
      let (body, ended) := copyTo [] input.pieces input.closed
      some { con with
        properties := request.headers
        body := some body
        unread := []
        responding := ended }
    else some con
  else none

end WebService

end Cream.Model
