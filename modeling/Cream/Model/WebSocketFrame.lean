import Cream.Library.WebSocketFraming

/-!
# The frames of a proxied WebSocket

`WebSocketFrame.read` and `write`, and what `readWebsocket` and the handlers of
`openWebSocket` make of the frames. The input is a list of ticks: a byte, or a timeout of the
read that waits for the next one. A read that fails has taken the bytes in front of the
failure, and the loop goes on behind them. At the end of the list the stream has ended.

Other threads may end the loop at any time: it is given one turn for each iteration it is
allowed, with whether the remote client is open then.

SOURCE: WebSocketFrame.java:64-85, 217-278, WebSocket.java:177-252, WebService.kt:622-699
-/

set_option autoImplicit false

namespace Cream.Model

open Cream.Library PercentCoding WebSocketFraming

namespace WebSocketFrame

/-- A byte, or a timeout. -/
abbrev Tick := Option UInt8

/-- The exceptions of `read`. -/
inductive Failure where
  | eof
  | timeout
  | webSocketException
deriving DecidableEq, Repr

/-- What is read, and what is left to be read. -/
def Reader (α : Type) : Type := List Tick → Except Failure α × List Tick

namespace Reader

variable {α β : Type}

def pure (a : α) : Reader α := fun ticks => (.ok a, ticks)

def bind (x : Reader α) (f : α → Reader β) : Reader β := fun ticks =>
  match x ticks with
  | (.ok a, rest) => f a rest
  | (.error e, rest) => (.error e, rest)

instance : Monad Reader where
  pure := pure
  bind := bind

def throw (e : Failure) : Reader α := fun ticks => (.error e, ticks)

end Reader

open Reader

/-- `checkedRead(in.read())`. -/
def readByte : Reader UInt8
  | [] => (.error .eof, [])
  | none :: rest => (.error .timeout, rest)
  | some b :: rest => (.ok b, rest)

/-- The loops that fill an array. -/
def readBytes : Nat → Reader Bytes
  | 0 => Reader.pure []
  | n + 1 => do
    let b ← readByte
    let bytes ← readBytes n
    Reader.pure (b :: bytes)

/-- `Integer.MAX_VALUE`. -/
def MAX_VALUE : Nat := 2 ^ 31 - 1

/-- The length of the payload that the second byte of a frame leads to. In eight bytes the
fifth is shifted as an `int`, so that its highest bit makes the number negative, like the
highest bit of the first. -/
def readLength (first : Nat) : Reader Nat := do
  if first = 126 then
    let bytes ← readBytes 2
    if number bytes < 126 then throw .webSocketException else Reader.pure (number bytes)
  else if first = 127 then
    let bytes ← readBytes 8
    if 128 ≤ (bytes.getD 0 0).toNat ∨ 128 ≤ (bytes.getD 4 0).toNat then throw .webSocketException
    else if number bytes < 65536 then throw .webSocketException
    else if MAX_VALUE < number bytes then throw .webSocketException
    else Reader.pure (number bytes)
  else Reader.pure first

/-- `readPayloadInfo`: the length and the masking key. -/
def readPayloadInfo (opCode : OpCode) : Reader (Nat × Option Bytes) := do
  let b ← readByte
  let length ← readLength (b.toNat % 128)
  if opCode.isControlFrame ∧ 125 < length then throw .webSocketException
  else if opCode = .Close ∧ length = 1 then throw .webSocketException
  else if 128 ≤ b.toNat then
    let key ← readBytes 4
    Reader.pure (length, some key)
  else Reader.pure (length, none)

/-- `readPayload`. -/
def readPayload (info : Nat × Option Bytes) : Reader Bytes := do
  let payload ← readBytes info.1
  match info.2 with
  | some key => Reader.pure (mask key payload)
  | none => Reader.pure payload

/-- `WebSocketFrame.read`. -/
def read : Reader Frame := do
  let head ← readByte
  let fin := decide (128 ≤ head.toNat)
  if head.toNat / 16 % 8 ≠ 0 then throw .webSocketException
  else
    match OpCode.find (head.toNat % 16) with
    | none => throw .webSocketException
    | some opCode =>
      if opCode.isControlFrame && !fin then throw .webSocketException
      else
        let info ← readPayloadInfo opCode
        let payload ← readPayload info
        Reader.pure ⟨fin, opCode, payload⟩

/-- `WebSocketFrame.write`, for a frame without a masking key. -/
def write (f : Frame) : Bytes :=
  let length := f.payload.length
  let header := UInt8.ofNat ((if f.fin then 0x80 else 0) + f.opCode.getValue)
  let size : Bytes :=
    if length ≤ 125 then [UInt8.ofNat length]
    else if length ≤ 0xffff then
      [126, UInt8.ofNat (length >>> 8), UInt8.ofNat length]
    else
      [127, 0, 0, 0, 0, UInt8.ofNat (length >>> 24), UInt8.ofNat (length >>> 16),
        UInt8.ofNat (length >>> 8), UInt8.ofNat length]
  header :: (size ++ f.payload)

end WebSocketFrame

namespace WebSocketLoop

open WebSocketFrame

/-- The fragments of a message that is not complete. -/
structure Fragments where
  continuousOpCode : Option OpCode
  continuousFrames : List Frame
deriving DecidableEq, Repr

/-- `handleFrameFragment`: the message it completes; `none` is a `WebSocketException`. -/
def handleFrameFragment (s : Fragments) (frame : Frame) :
    Option (Fragments × Option (OpCode × Bytes)) :=
  if frame.opCode ≠ .Continuation then
    match s.continuousOpCode with
    | some _ => none
    | none => some (⟨some frame.opCode, [frame]⟩, none)
  else
    match s.continuousOpCode with
    | none => none
    | some op =>
      let frames := s.continuousFrames ++ [frame]
      if frame.fin then
        let payload := frames.flatMap Frame.payload
        -- `new WebSocketFrame(opCode, fragments)`
        if MAX_VALUE < payload.length then none else some (⟨none, []⟩, some (op, payload))
      else some (⟨some op, frames⟩, none)

/-- `handleWebsocketFrame`, but for its answers to the browser: the message it hands to
`onMessage`; `none` is a `WebSocketException`. -/
def handleWebsocketFrame (s : Fragments) (frame : Frame) :
    Option (Fragments × Option (OpCode × Bytes)) :=
  match frame.opCode with
  | .Close => some (s, none)
  | .Ping => some (s, none)
  | .Pong => some (s, none)
  | op =>
    if !frame.fin || op = .Continuation then handleFrameFragment s frame
    else
      match s.continuousOpCode with
      | some _ => none
      | none => some (s, some (op, frame.payload))

/-- What is passed to `send` of the remote client. -/
inductive Sent where
  | text (message : Text)
  | binary (payload : Bytes)
deriving DecidableEq, Repr

/-- The local `onMessage`, for a remote client that is open. -/
def onMessage (opCode : OpCode) (payload : Bytes) : Sent :=
  if opCode = .Text then .text (utf8Decode payload) else .binary payload

/-- `readWebsocket`: what it passes to the remote client. A Close frame, a broken frame and a
message for a remote client that is not open end the loop. -/
def readWebsocket : List Bool → Fragments → List Tick → List Sent
  | [], _, _ => []
  | isOpen :: turns, s, ticks =>
    match read ticks with
    | (.ok frame, rest) =>
      match handleWebsocketFrame s frame with
      | none => []
      | some (s, none) => if frame.opCode = .Close then [] else readWebsocket turns s rest
      | some (s, some (op, payload)) =>
        if isOpen then onMessage op payload :: readWebsocket turns s rest else []
    | (.error .webSocketException, _) => []
    | (.error _, rest) => readWebsocket turns s rest

/-- What the threads of the proxy write to the browser. -/
inductive Outgoing where
  /-- `onMessage(String)` of the remote client -/
  | text (message : Text)
  /-- `onMessage(ByteBuffer)` of the remote client: the array of the buffer, and the part of
  it between the position and the limit -/
  | binary (array : Bytes) (position limit : Nat)
  /-- the answer to a ping -/
  | pong (payload : Bytes)
deriving DecidableEq, Repr

/-- The frame that is written. -/
def Outgoing.frame : Outgoing → Frame
  | .text message => ⟨true, .Text, utf8Encode message⟩
  | .binary array _ _ => ⟨true, .Binary, array⟩
  | .pong payload => ⟨true, .Pong, payload⟩

/-- What is written to the browser while the local socket is open; `sendFrame` is
synchronized. -/
def written (outgoing : List Outgoing) : Bytes := outgoing.flatMap fun o => write o.frame

end WebSocketLoop

end Cream.Model
