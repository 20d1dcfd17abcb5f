import Cream.Library.Transition

/-!
# The serial bridge

`serial.cpp` and `ReadThread` of `UsbSerialManager.kt`: what the printer sends goes through
`SerialNative.write` into the master side of a pty, from which Klipper reads, and what Klipper
writes is read by the worker, in packet mode, and handed to `onDataReceived`. The pty is a
bounded queue in each direction; a flush may discard any of the bytes that are written and not
read, and a write takes all of its bytes when there is room for them and may take fewer when
there is not. Failing calls of `select` and the end of the port are left out.

SOURCE: serial.cpp:32-149, UsbSerialManager.kt:205-222
-/

set_option autoImplicit false

namespace Cream.Model

/-- Where the `ReadThread` is. -/
inductive Phase where
  | reading
  /-- in `SerialNative.write`, before `tcflush` -/
  | flushing (chunk : List UInt8)
  /-- before `write` -/
  | writing (chunk : List UInt8)
deriving DecidableEq

structure SerialBridge where
  /-- how many bytes the pty holds for Klipper -/
  capacity : Nat
  phase : Phase
  /-- the chunks that were passed to `SerialNative.write` -/
  chunks : List (List UInt8)
  /-- written to the master and not read by Klipper -/
  queue : List UInt8
  /-- what Klipper has read -/
  received : List UInt8
  /-- what Klipper has written -/
  sent : List UInt8
  /-- written by Klipper and not read by the worker -/
  outgoing : List UInt8
  /-- the packet-mode status that has not been read; 0 for none -/
  status : UInt8
  /-- the arrays that were handed to `onDataReceived` -/
  handed : List (List UInt8)

namespace SerialBridge

/-- A port that was just created. -/
def init (capacity : Nat) : SerialBridge := ⟨capacity, .reading, [], [], [], [], [], 0, []⟩

def BUFFER_SIZE : Nat := 4096

/-- `ReadThread.run`: the chunk that is written, of `c` bytes that were read. -/
def readChunk (buffer : List UInt8) (c : Nat) : Option (List UInt8) :=
  if 0 < c then some (buffer.take c) else none

/-- What `read` finds on the master in packet mode: a status, or data behind a 0. -/
def packet (status : UInt8) (outgoing : List UInt8) (n : Nat) : List UInt8 :=
  if status ≠ 0 then [status] else 0 :: outgoing.take n

/-- `worker`: the array of the `count` bytes in the buffer, if any. -/
def worker (buffer : List UInt8) : Option (List UInt8) :=
  if 1 < buffer.length then some (buffer.drop 1) else none

/-- What can happen. -/
inductive Action where
  /-- `port.read(buffer, 0)` answers `c` -/
  | usbRead (buffer : List UInt8) (c : Nat)
  /-- `tcflush(port->master, TCOFLUSH)` leaves these bytes -/
  | tcflush (kept : List UInt8)
  /-- `write(port->master, elements, len)` takes so many bytes -/
  | write (accepted : Nat)
  | klipperRead (n : Nat)
  | klipperWrite (bytes : List UInt8)
  /-- the status of the pty changes -/
  | control (status : UInt8)
  /-- the worker's `read` takes at most so many bytes of data -/
  | workerRead (n : Nat)

/-- What each of these does. A write that finds no room for its whole chunk may take a part of it:
so a pty behaves that does not block, as the comment in `create` wants it. As it is there,
`fcntl(master, flags | O_NONBLOCK)` passes the flags as the command and sets nothing, so the
call waits until all of the chunk has gone, which here is a write that comes later. -/
def step (s : SerialBridge) : Action → Option SerialBridge
  | .usbRead buffer c =>
    if s.phase = .reading ∧ buffer.length = 4096 ∧ c ≤ buffer.length then
      match readChunk buffer c with
      | none => some s
      | some chunk => some { s with phase := .flushing chunk, chunks := s.chunks ++ [chunk] }
    else none
  | .tcflush kept =>
    match s.phase with
    | .flushing chunk =>
      if kept.Sublist s.queue then some { s with phase := .writing chunk, queue := kept } else none
    | _ => none
  | .write accepted =>
    match s.phase with
    | .writing chunk =>
      if accepted ≤ chunk.length ∧ s.queue.length + accepted ≤ s.capacity ∧
          (s.queue.length + chunk.length ≤ s.capacity → accepted = chunk.length) then
        some { s with phase := .reading, queue := s.queue ++ chunk.take accepted }
      else none
    | _ => none
  | .klipperRead n =>
    some { s with received := s.received ++ s.queue.take n, queue := s.queue.drop n }
  | .klipperWrite bytes => some { s with sent := s.sent ++ bytes, outgoing := s.outgoing ++ bytes }
  | .control status => some { s with status := status }
  | .workerRead n =>
    if 0 < n ∧ n < BUFFER_SIZE - 1 ∧ (s.status ≠ 0 ∨ s.outgoing ≠ []) then
      some { s with
        status := 0
        outgoing := if s.status ≠ 0 then s.outgoing else s.outgoing.drop n
        handed := s.handed ++ (worker (packet s.status s.outgoing n)).toList }
    else none

end SerialBridge

end Cream.Model
