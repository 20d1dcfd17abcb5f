import Cream.Library.Transition

/-!
# The closing of a proxied WebSocket

`WebService.HttpServer.openWebSocket` couples the socket of a browser (`WebSocket`, the local
one) with a client of Moonraker (`WebSocketClient`, the remote one). The local thread connects
the remote client in `onOpen` and then runs the loop of `readWebsocket`; the callbacks of the
remote client run on its own thread. A step is one callback, one test of the loop condition,
or one read together with the handling of what was read; `Write` says what comes of a frame
that is written to the browser meanwhile.

The last fields of the state record what happened: they are read by no step.

SOURCE: WebService.kt:616-703, WebSocket.java:65-76, 120-175, 204-252
-/

set_option autoImplicit false

namespace Cream.Model

namespace WebSocket

/-- `State`, from the handshake on. -/
inductive State where
  | OPEN
  | CLOSING
  | CLOSED
deriving DecidableEq, Repr

/-- What comes of writing to the browser. -/
inductive Write where
  | ok
  | socketException
  /-- an `IOException` that is no `SocketException` -/
  | ioException
deriving DecidableEq, Repr

/-- A frame from the browser, by what `handleWebsocketFrame` does with it. -/
inductive Frame where
  | close
  | ping
  /-- a pong, or a fragment that completes no message -/
  | part
  /-- a message, or the fragment that completes one -/
  | message
deriving DecidableEq, Repr

/-- What a read of the loop comes to. -/
inductive Incoming where
  | frame (f : Frame)
  | eof
  | timeout
  | socketException
  /-- an `IOException` of no other kind -/
  | ioException
  /-- a frame that breaks the protocol -/
  | webSocketException
deriving DecidableEq, Repr

/-- Where the local thread is. -/
inductive Pc where
  /-- in `connectBlocking` -/
  | opening
  /-- before the test of the loop condition -/
  | head
  | reading
  | ended
deriving DecidableEq, Repr

/-- The remote client. -/
inductive Remote where
  | idle
  | isOpen
  /-- asked to close -/
  | closing
  | closed
deriving DecidableEq, Repr

structure Proxy where
  state : State
  pc : Pc
  remote : Remote
  /-- the calls of the local `onClose` -/
  onCloses : Nat
  /-- the remote client has been open -/
  everOpen : Bool
  /-- the remote client has been asked to close -/
  asked : Bool
  /-- the remote client has closed -/
  gone : Bool
  /-- the steps of the local thread since a Close frame, the end of the stream or an
  `IOException` that is no timeout -/
  sinceOver : Option Nat
  /-- the steps of the local thread since the remote client closed or failed -/
  sinceGone : Option Nat
deriving DecidableEq, Repr

/-- The handshake has been answered and `onOpen` is called. -/
def Proxy.initial : Proxy where
  state := .OPEN
  pc := .opening
  remote := .idle
  onCloses := 0
  everOpen := false
  asked := false
  gone := false
  sinceOver := none
  sinceGone := none

namespace Proxy

/-- `remoteClient.close()`. -/
def closeRemote (p : Proxy) : Proxy :=
  { p with remote := if p.remote = .isOpen then .closing else p.remote, asked := true }

/-- The local `onClose`. -/
def onClose (p : Proxy) : Proxy :=
  let p := { p with onCloses := p.onCloses + 1 }
  if p.remote = .isOpen then p.closeRemote else p

/-- `doClose`. -/
def doClose (p : Proxy) : Proxy :=
  if p.state = .CLOSED then p else { p with state := .CLOSED }.onClose

/-- `close`; whether it throws what writing the Close frame comes to. -/
def close (p : Proxy) (write : Write) : Proxy × Write :=
  if p.state = .OPEN then ({ p with state := .CLOSING }, write)
  else ({ p with state := .CLOSING }.doClose, .ok)

/-- The local `onException`, for an exception that is no timeout. -/
def onException (p : Proxy) : Proxy := if p.remote = .isOpen then p.closeRemote else p

/-- `handleWebsocketFrame`; what it throws. -/
def handleWebsocketFrame (p : Proxy) (write : Write) : Frame → Proxy × Write
  | .close => if p.state = .CLOSING then (p.doClose, .ok) else p.close write
  | .ping => (p, write)
  | .part => (p, .ok)
  | .message => if p.remote = .isOpen then (p, .ok) else ((p.close write).1, .ok)

/-- Where the loop goes on. -/
def again (p : Proxy) : Proxy := { p with pc := .head }

/-- The `break` behind a `doClose`. -/
def closed (p : Proxy) : Proxy := { p.onException.doClose with pc := .ended }

/-- An iteration of the loop of `readWebsocket`. -/
def readWebsocket (p : Proxy) (write : Write) : Incoming → Proxy
  | .frame f =>
    match p.handleWebsocketFrame write f with
    | (p, .ok) => p.again
    | (p, .socketException) => p.closed
    | (p, .ioException) => p.onException.again
  | .timeout => p.again
  | .eof => p.onException.again
  | .ioException => p.onException.again
  | .socketException => p.closed
  | .webSocketException => p.closed

/-- A Close frame, the end of the stream or an `IOException` that is no timeout. -/
def isOver (write : Write) : Incoming → Bool
  | .frame .close => true
  | .frame .ping => write ≠ .ok
  | .frame _ => false
  | .timeout => false
  | _ => true

/-- The count of a step of the local thread. -/
def counted (p : Proxy) (finished : Bool) (q : Proxy) : Proxy :=
  { q with
    sinceOver :=
      match p.sinceOver with
      | some n => some (n + 1)
      | none => if finished then some 0 else none
    sinceGone := p.sinceGone.map (· + 1) }

/-- A callback closes the local socket; what it throws is caught. -/
def closeLocal (p : Proxy) (write : Write) : Proxy :=
  if p.state = .OPEN then (p.close write).1 else p

/-- The remote client closes or fails. -/
def lost (p : Proxy) : Proxy := { p with sinceGone := some (p.sinceGone.getD 0) }

end Proxy

inductive Action where
  /-- the remote client is connected -/
  | remoteOpen
  /-- `onMessage` of the remote client -/
  | remoteMessage (write : Write)
  /-- `onClose` of the remote client -/
  | remoteClose (write : Write)
  /-- `onError` of the remote client -/
  | remoteError (write : Write)
  /-- `connectBlocking` returns, or is interrupted -/
  | connected (interrupted : Bool) (write : Write)
  /-- the loop condition is tested -/
  | check
  /-- the loop reads -/
  | read (incoming : Incoming) (write : Write)
deriving DecidableEq, Repr

/-- One step of the proxy. -/
def step (p : Proxy) : Action → Option Proxy
  | .remoteOpen =>
    if p.remote = .idle then some { p with remote := .isOpen, everOpen := true } else none
  | .remoteMessage write =>
    if p.remote = .isOpen ∨ p.remote = .closing then
      if p.state = .OPEN then
        some (if write = .ok then p else p.closeLocal write)
      else some p.closeRemote
    else none
  | .remoteClose write =>
    if p.remote = .closed then none
    else some ({ p with remote := .closed, gone := true }.lost.closeLocal write)
  | .remoteError write => some (p.lost.closeLocal write)
  | .connected interrupted write =>
    if p.pc = .opening ∧ (interrupted ∨ p.remote ≠ .idle) then
      if interrupted ∨ p.remote ≠ .isOpen then
        let (q, thrown) := p.close write
        -- only an `InterruptedException` is caught around the `close` of a failed connect
        some (p.counted false { q with pc := if interrupted ∨ thrown = .ok then .head else .ended })
      else some (p.counted false p.again)
    else none
  | .check =>
    if p.pc = .head then
      some (p.counted false { p with pc := if p.state = .OPEN then .reading else .ended })
    else none
  | .read incoming write =>
    if p.pc = .reading then
      some (p.counted (Proxy.isOver write incoming) (p.readWebsocket write incoming))
    else none

end WebSocket

end Cream.Model
