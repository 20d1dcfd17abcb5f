import Cream.Library.Transition
import Cream.Model.CameraServer

/-!
# The camera stream

`CameraService.kt`: every client has a `CameraHandlerThread` that runs its messages one after
the other: first the headers, then one message for each frame that `deliverFrame` has posted
to it. A client is put into `handlerThreads` when its headers are written, and `deliverFrame`
goes over the list as it was when it began. A handler's bytes go out one by one, each of which
may fail; an exception and the catch that handles it are one step. `onDestroy` is left out.

SOURCE: CameraService.kt:267-297, 336-376
-/

set_option autoImplicit false

namespace Cream.Model

open Cream.Library

namespace CameraStream

/-- `String.toByteArray`, of ASCII texts. -/
def toByteArray (s : Text) : List UInt8 := s.map fun c => UInt8.ofNat c.toNat

def HEADERS : List UInt8 :=
  toByteArray ("HTTP/1.0 200 OK\r\nConnection: close\r\nMax-Age: 0\r\nExpires: 0\r\n".toList ++
    "Cache-Control: no-cache, private\r\nPragma: no-cache\r\n".toList ++
    "Content-Type: multipart/x-mixed-replace; boundary=camera-frame\r\n\r\n".toList)

/-- A message of a handler. -/
inductive Message where
  | headers
  | frame (data : List UInt8)
deriving DecidableEq

/-- What is written for a message. -/
def Message.writes (oneShot : Bool) : Message → List (List UInt8)
  | headers => [HEADERS]
  | frame data =>
    (if oneShot then [] else
      [toByteArray "--camera-frame\r\n".toList,
        toByteArray ("Content-Type: image/jpeg\r\nContent-Length: ".toList ++
          Nat.toDigits 10 data.length ++ "\r\n\r\n".toList)]) ++
    data :: if oneShot then [] else [toByteArray "\r\n\r\n".toList]

/-- `CameraHandlerThread`. -/
structure Client where
  oneShot : Bool
  /-- the messages that are posted -/
  queue : List Message
  /-- the message that runs, and what is left to be written for it -/
  running : Option (Message × List UInt8)
  /-- `quit` was called: the socket is closed and the looper runs no more messages -/
  closed : Bool
  /-- what the client has received -/
  received : List UInt8
  /-- the frames that were posted -/
  posted : List (List UInt8)
  /-- the headers are written -/
  headersWritten : Bool
  /-- a write has failed -/
  failed : Bool
  /-- something was written, or tried to, after a write had failed -/
  retried : Bool

/-- A client that was just accepted. -/
def Client.connected (oneShot : Bool) : Client :=
  ⟨oneShot, [.headers], none, false, [], [], false, false, false⟩

end CameraStream

open CameraStream in
structure CameraStream where
  clients : List Client
  handlerThreads : List Nat
  /-- the frame that is delivered, and the clients it has not been posted to yet -/
  delivering : Option (List UInt8 × List Nat)
  /-- all frames so far -/
  delivered : List (List UInt8)

namespace CameraStream

def init : CameraStream := ⟨[], [], none, []⟩

/-- What can happen. -/
inductive Action where
  /-- a client was accepted whose first line was read -/
  | connect (line : Option Text)
  /-- `deliverFrame` begins -/
  | deliverFrame (data : List UInt8)
  /-- `t.handler.post` for the next client, or the end of `deliverFrame` -/
  | post
  /-- the looper of a client takes its next message -/
  | next (i : Nat)
  /-- a byte is written to a client -/
  | sent (i : Nat)
  /-- a write to a client, or its flush, throws -/
  | fails (i : Nat)
  /-- a message has run to its end -/
  | done (i : Nat)
deriving DecidableEq

/-- `CameraHandlerThread.quit`. -/
def quit (s : CameraStream) (i : Nat) (c : Client) : CameraStream :=
  { s with
    clients := s.clients.set i { c with closed := true, running := none }
    handlerThreads := s.handlerThreads.erase i }

/-- `handler.post`: a looper that has quit takes no messages. -/
def Client.post (c : Client) (data : List UInt8) : Client :=
  if c.closed then c
  else { c with queue := c.queue ++ [.frame data], posted := c.posted ++ [data] }

def step (s : CameraStream) : Action → Option CameraStream
  | .connect line =>
    some { s with clients := s.clients ++ [.connected (CameraServer.isOneShot line)] }
  | .deliverFrame data =>
    if s.delivering = none then
      some { s with
        delivering := some (data, s.handlerThreads)
        delivered := s.delivered ++ [data] }
    else none
  | .post =>
    match s.delivering with
    | none => none
    | some (_, []) => some { s with delivering := none }
    | some (data, i :: rest) =>
      some { s with
        clients := s.clients.modify i (·.post data)
        delivering := some (data, rest) }
  | .next i =>
    (s.clients[i]?).bind fun c =>
      match c.queue with
      | [] => none
      | message :: queue =>
        if c.closed ∨ c.running ≠ none then none
        else
          let c := { c with
            queue := queue
            running := some (message, (message.writes c.oneShot).flatten) }
          some { s with clients := s.clients.set i c }
  | .sent i =>
    (s.clients[i]?).bind fun c =>
      match c.running with
      | some (message, b :: rest) =>
        let c := { c with
          running := some (message, rest)
          received := c.received ++ [b]
          retried := c.retried || c.failed }
        some { s with clients := s.clients.set i c }
      | _ => none
  | .fails i =>
    (s.clients[i]?).bind fun c =>
      match c.running with
      | some (message, _) =>
        let c := { c with running := none, failed := true, retried := c.retried || c.failed }
        match message with
        | .headers => some (s.quit i c)
        | .frame _ =>
          if c.closed then some (s.quit i c) else some { s with clients := s.clients.set i c }
      | _ => none
  | .done i =>
    (s.clients[i]?).bind fun c =>
      match c.running with
      | some (message, []) =>
        let c := { c with running := none }
        match message with
        | .headers =>
          some { s with
            clients := s.clients.set i { c with headersWritten := true }
            handlerThreads := s.handlerThreads ++ [i] }
        | .frame _ =>
          if c.oneShot then some (s.quit i c) else some { s with clients := s.clients.set i c }
      | _ => none

end CameraStream

end Cream.Model
