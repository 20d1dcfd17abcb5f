import Mathlib.Logic.Function.Basic

/-!
# The native serial ports

`NativeSerialPort.kt`, and how `UsbSerialManager` uses it: the calls of `connect` from the
constructor on, the calls of `close`, and the `ReadThread`s, in the single steps that touch the
native port or what others see of it. Native ports are numbered as they are made, and a pointer
stands for the call of `SerialNative.create` that returned it, so that it is not returned twice;
`0` is the null pointer. A thread whose `port.read` throws an `IOException` calls `close` and
goes on when that has returned.

SOURCE: NativeSerialPort.kt:17-47, UsbSerialManager.kt:120-223, serial.cpp:105-157
-/

set_option autoImplicit false

namespace Cream.Model

/-- The calls into `serial.cpp`, with the pointer they return or are passed. -/
inductive NativeCall where
  | create (pointer : Nat)
  | write (pointer : Nat)
  | release (pointer : Nat)
deriving DecidableEq, Repr

/-- Where a call of `connect` is. -/
inductive ConnectAt where
  | putNativePort
  | putPort
  | putThread
  | returned
deriving DecidableEq, Repr

/-- A call of `connect` that has made its native port. -/
structure ConnectCall where
  n : Nat
  pc : ConnectAt
deriving DecidableEq, Repr

/-- Where a call of `close` is. -/
inductive CloseAt where
  | removeNativePort
  | removePort
  | removeThread
  | release
  | closePort
  | interrupt
  | returned
deriving DecidableEq, Repr

/-- A call of `close`. -/
structure CloseCall where
  uid : String
  pc : CloseAt
  nativePort : Option Nat
  port : Option Nat
  thread : Option Nat
  /-- the read thread that calls, if it is one -/
  caller : Option Nat
  /-- how many native ports had been made when it was called -/
  before : Nat
deriving DecidableEq, Repr

/-- Where a `ReadThread` is. -/
inductive ReadThreadAt where
  /-- its start is posted -/
  | posted
  /-- in `port.read`, or before it -/
  | reading
  /-- `port.read` has returned data -/
  | hasRead
  /-- in `close` -/
  | closing
  /-- not made yet, or at its end -/
  | ended
deriving DecidableEq, Repr

structure NativeSerialPorts where
  nativePortMap : String → Option Nat
  portMap : String → Option Nat
  readThreadMap : String → Option Nat
  /-- how many native ports were made -/
  made : Nat
  uidOf : Nat → String
  pointer : Nat → Nat
  thread : Nat → ReadThreadAt
  closedPorts : List Nat
  interrupted : List Nat
  connecting : List ConnectCall
  closing : List CloseCall
  /-- the calls into native code, in their order -/
  natives : List NativeCall

namespace NativeSerialPorts

/-- Before the first call. -/
def empty : NativeSerialPorts where
  nativePortMap := fun _ => none
  portMap := fun _ => none
  readThreadMap := fun _ => none
  made := 0
  uidOf := fun _ => ""
  pointer := fun _ => 0
  thread := fun _ => .ended
  closedPorts := []
  interrupted := []
  connecting := []
  closing := []
  natives := []

/-- `connect` makes the native port and the thread; `created` says whether
`SerialNative.create` does not return 0. -/
def create (s : NativeSerialPorts) (uid : String) (created : Bool) : NativeSerialPorts :=
  let n := s.made
  let pointer := if created then n + 1 else 0
  { s with
    made := n + 1
    uidOf := Function.update s.uidOf n uid
    pointer := Function.update s.pointer n pointer
    thread := Function.update s.thread n .posted
    connecting := s.connecting ++ [⟨n, .putNativePort⟩]
    natives := s.natives ++ [.create pointer] }

/-- A call of `connect` goes on. -/
def connectStep (s : NativeSerialPorts) (i : Nat) (c : ConnectCall) : Option NativeSerialPorts :=
  let uid := s.uidOf c.n
  let goOn := fun pc => s.connecting.set i { c with pc := pc }
  match c.pc with
  | .putNativePort => some { s with
      nativePortMap := Function.update s.nativePortMap uid (some c.n)
      connecting := goOn .putPort }
  | .putPort => some { s with
      portMap := Function.update s.portMap uid (some c.n)
      connecting := goOn .putThread }
  | .putThread => some { s with
      readThreadMap := Function.update s.readThreadMap uid (some c.n)
      connecting := goOn .returned }
  | .returned => none

/-- A call of `close` begins. -/
def beginClose (s : NativeSerialPorts) (uid : String) (caller : Option Nat) :
    NativeSerialPorts :=
  { s with closing := s.closing ++ [⟨uid, .removeNativePort, none, none, none, caller, s.made⟩] }

/-- A call of `close` goes on. -/
def closeStep (s : NativeSerialPorts) (i : Nat) (c : CloseCall) : Option NativeSerialPorts :=
  let goOn := fun c => s.closing.set i c
  match c.pc with
  | .removeNativePort => some { s with
      nativePortMap := Function.update s.nativePortMap c.uid none
      closing := goOn { c with nativePort := s.nativePortMap c.uid, pc := .removePort } }
  | .removePort => some { s with
      portMap := Function.update s.portMap c.uid none
      closing := goOn { c with port := s.portMap c.uid, pc := .removeThread } }
  | .removeThread => some { s with
      readThreadMap := Function.update s.readThreadMap c.uid none
      closing := goOn { c with thread := s.readThreadMap c.uid, pc := .release } }
  | .release => some { s with
      natives := s.natives ++ (c.nativePort.map fun n => .release (s.pointer n)).toList
      closing := goOn { c with pc := .closePort } }
  | .closePort => some { s with
      closedPorts := c.port.toList ++ s.closedPorts
      closing := goOn { c with pc := .interrupt } }
  | .interrupt => some { s with
      interrupted := c.thread.toList ++ s.interrupted
      thread := match c.caller with
        | none => s.thread
        | some n => Function.update s.thread n .reading
      closing := goOn { c with pc := .returned } }
  | .returned => none

/-- What can happen next. -/
inductive Action where
  | create (uid : String) (created : Bool)
  /-- the call of `connect` with an index goes on -/
  | connect (i : Nat)
  | close (uid : String)
  /-- the call of `close` with an index goes on -/
  | closing (i : Nat)
  /-- the main looper starts a thread -/
  | start (n : Nat)
  /-- `port.read` returns data -/
  | read (n : Nat)
  /-- `nativePort.write` -/
  | write (n : Nat)
  /-- `port.read` throws an `IOException` -/
  | readError (n : Nat)
  /-- a thread finds itself interrupted -/
  | finish (n : Nat)

/-- One step. Nothing is read from a closed port. -/
def step (s : NativeSerialPorts) : Action → Option NativeSerialPorts
  | .create uid created => some (s.create uid created)
  | .connect i => (s.connecting[i]?).bind (s.connectStep i)
  | .close uid => some (s.beginClose uid none)
  | .closing i => (s.closing[i]?).bind (s.closeStep i)
  | .start n =>
    if s.thread n = .posted then some { s with thread := Function.update s.thread n .reading }
    else none
  | .read n =>
    if s.thread n = .reading ∧ n ∉ s.closedPorts then
      some { s with thread := Function.update s.thread n .hasRead }
    else none
  | .write n =>
    if s.thread n = .hasRead then
      some { s with
        thread := Function.update s.thread n .reading
        natives := s.natives ++ [.write (s.pointer n)] }
    else none
  | .readError n =>
    if s.thread n = .reading then
      some { s.beginClose (s.uidOf n) (some n) with
        thread := Function.update s.thread n .closing }
    else none
  | .finish n =>
    if s.thread n = .reading ∧ n ∈ s.interrupted then
      some { s with thread := Function.update s.thread n .ended }
    else none

end NativeSerialPorts

end Cream.Model
