import Cream.Library.Pattern

/-!
# The camera server

`CameraService.kt`: `ServerThread` accepts the clients of the camera one after the other, and
makes a `CameraHandlerThread` of each before it accepts the next. The first line of a client's
request is read by the handler's constructor, which runs on the accepting thread. A client is
what the reads of its connection find, one event after the other. The service is not destroyed.

SOURCE: CameraService.kt:315-376
-/

set_option autoImplicit false

namespace Cream.Model

open Cream.Library

namespace CameraServer

/-- What a read of a connection finds. -/
inductive Event where
  | bytes (chunk : List UInt8)
  /-- nothing has come -/
  | wait
  /-- the client has closed the connection -/
  | eof
  /-- the connection is reset: the read throws -/
  | reset
deriving DecidableEq

/-- What a client does. -/
abbrev Client := Nat → Event

/-- Where the `ServerThread` is. -/
inductive Phase where
  | accept
  /-- in the constructor of the handler, before the read that finds the `next`th event, with the
  bytes that were read of the first line -/
  | readLine (next : Nat) (read : List UInt8)
  /-- an exception has left `run` -/
  | thrown
deriving DecidableEq

structure ServerThread where
  phase : Phase
  /-- how many clients were accepted -/
  accepted : Nat
  /-- `oneShot` of the handlers that were made -/
  handlers : List Bool

def init : ServerThread := ⟨.accept, 0, []⟩

/-- `GET ([^\r\n]+) HTTP/1\.[0-1]` -/
def PATH_PATTERN : Pattern :=
  [.text "GET ".toList, .group (· ∉ ['\r', '\n']), .text " HTTP/1.".toList, .one (· ∈ ['0', '1'])]

/-- Whether the first line of a request asks for a single image. -/
def isOneShot (line : Option Text) : Bool :=
  match line with
  | none => false
  | some line =>
    match PATH_PATTERN.find line with
    | some (_, path :: _, _) => "/snapshot".toList <+: path
    | _ => false

def isLineEnd (b : UInt8) : Bool := b = 10 || b = 13

/-- The handler is made, and the loop goes back to `accept`. -/
def made (s : ServerThread) (line : Option Text) : ServerThread :=
  { s with phase := .accept, handlers := s.handlers ++ [isOneShot line] }

/-- A step of `ServerThread.run` when these clients connect in this order; `decode` is the
charset of the reader. -/
def step (decode : List UInt8 → Text) (clients : Nat → Client) (s : ServerThread) : ServerThread :=
  match s.phase with
  | .accept => { s with phase := .readLine 0 [], accepted := s.accepted + 1 }
  | .readLine next read =>
    match clients (s.accepted - 1) next with
    | .bytes chunk =>
      if chunk.any isLineEnd then
        made s (some (decode (read ++ chunk.takeWhile (!isLineEnd ·))))
      else { s with phase := .readLine (next + 1) (read ++ chunk) }
    | .wait => { s with phase := .readLine (next + 1) read }
    | .eof => made s (if read = [] then none else some (decode read))
    | .reset => { s with phase := .thrown }
  | .thrown => s

end CameraServer

end Cream.Model
