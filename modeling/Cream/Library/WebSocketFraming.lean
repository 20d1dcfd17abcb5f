import Cream.Library.PercentCoding
import Mathlib

/-!
# WebSocket frames

The framing of RFC 6455: frames, their bytes (`encode`), the frame sequences an endpoint may
send (`WellFormed`) and the messages in them (`messages`). A frame of a client is masked by a
key of four bytes, one of a server is not.
-/

set_option autoImplicit false

namespace Cream.Library

open PercentCoding

namespace WebSocketFraming

/-- The opcodes. -/
inductive OpCode where
  | Continuation
  | Text
  | Binary
  | Close
  | Ping
  | Pong
deriving DecidableEq, Repr

namespace OpCode

def getValue : OpCode → Nat
  | Continuation => 0
  | Text => 1
  | Binary => 2
  | Close => 8
  | Ping => 9
  | Pong => 10

def values : List OpCode := [Continuation, Text, Binary, Close, Ping, Pong]

/-- The opcode of a value. -/
def find (value : Nat) : Option OpCode := values.find? fun op => op.getValue = value

def isControlFrame : OpCode → Bool
  | Close | Ping | Pong => true
  | _ => false

end OpCode

structure Frame where
  fin : Bool
  opCode : OpCode
  payload : Bytes
deriving DecidableEq, Repr

/-- The four bytes of a masking key. -/
structure Key where
  bytes : Bytes
  length_eq : bytes.length = 4
deriving DecidableEq, Repr

/-- A payload under a masking key; doing it twice undoes it. -/
def mask (key : Bytes) (payload : Bytes) : Bytes :=
  payload.mapIdx fun i b => b ^^^ key.getD (i % 4) 0

/-- A number in two bytes. -/
def be16 (n : Nat) : Bytes := [UInt8.ofNat (n / 256), UInt8.ofNat n]

/-- A number in eight bytes. -/
def be64 (n : Nat) : Bytes :=
  [UInt8.ofNat (n / 256 ^ 7), UInt8.ofNat (n / 256 ^ 6), UInt8.ofNat (n / 256 ^ 5),
    UInt8.ofNat (n / 256 ^ 4), UInt8.ofNat (n / 256 ^ 3), UInt8.ofNat (n / 256 ^ 2),
    UInt8.ofNat (n / 256), UInt8.ofNat n]

/-- The number some bytes stand for. -/
def number (bytes : Bytes) : Nat := bytes.foldl (fun n b => 256 * n + b.toNat) 0

/-- The first byte of a frame. -/
def headByte (fin : Bool) (op : OpCode) : UInt8 :=
  UInt8.ofNat ((if fin then 128 else 0) + op.getValue)

/-- The length of the payload, in as few bytes as it takes. -/
def lengthField (masked : Bool) (length : Nat) : Bytes :=
  let m := if masked then 128 else 0
  if length ≤ 125 then [UInt8.ofNat (m + length)]
  else if length ≤ 0xffff then UInt8.ofNat (m + 126) :: be16 length
  else UInt8.ofNat (m + 127) :: be64 length

/-- The bytes of a frame. -/
def encode (key : Option Key) (f : Frame) : Bytes :=
  headByte f.fin f.opCode :: (lengthField key.isSome f.payload.length ++
    match key with
    | some key => key.bytes ++ mask key.bytes f.payload
    | none => f.payload)

/-- What comes of a started message with a further frame. -/
def extended (started : Option (OpCode × Bytes)) (f : Frame) : OpCode × Bytes :=
  match started with
  | none => (f.opCode, f.payload)
  | some (op, front) => (op, front ++ f.payload)

/-- The messages in a sequence of frames; the first argument is what has come of a message
whose last fragment is still to come. -/
def messages : Option (OpCode × Bytes) → List Frame → List (OpCode × Bytes)
  | _, [] => []
  | started, f :: frames =>
    if f.opCode.isControlFrame then messages started frames
    else if f.fin then extended started f :: messages none frames
    else messages (some (extended started f)) frames

/-- The frames may be sent in this order, after a message has been started or not: control
frames are short and whole, a message begins with its opcode and goes on with
continuations. -/
def WellFormed : Option (OpCode × Bytes) → List Frame → Prop
  | _, [] => True
  | started, f :: frames =>
    f.payload.length < 2 ^ 63 ∧
    if f.opCode.isControlFrame then
      f.fin = true ∧ f.payload.length ≤ 125 ∧ (f.opCode = .Close → f.payload.length ≠ 1) ∧
        WellFormed started frames
    else
      (f.opCode = .Continuation ↔ started.isSome = true) ∧
        WellFormed (if f.fin then none else some (extended started f)) frames

/-! ## Bytes -/

/-- A masked payload has its length. -/
theorem length_mask (key payload : Bytes) : (mask key payload).length = payload.length := by
  rw [mask, List.length_mapIdx]

/-- A mask is taken off as it was put on. -/
theorem mask_mask (key payload : Bytes) : mask key (mask key payload) = payload := by
  rw [mask, mask, List.mapIdx_mapIdx]
  refine List.ext_getElem (by rw [List.length_mapIdx]) fun i h h' => ?_
  rw [List.getElem_mapIdx]
  show payload[i] ^^^ key.getD (i % 4) 0 ^^^ key.getD (i % 4) 0 = payload[i]
  rw [UInt8.xor_assoc, UInt8.xor_self, UInt8.xor_zero]

/-- Two bytes are read back as their number. -/
theorem number_be16 {n : Nat} (h : n < 2 ^ 16) : number (be16 n) = n := by
  simp only [number, be16, List.foldl_cons, List.foldl_nil, UInt8.toNat_ofNat']
  omega

/-- So are eight. -/
theorem number_be64 {n : Nat} (h : n < 2 ^ 64) : number (be64 n) = n := by
  simp only [number, be64, List.foldl_cons, List.foldl_nil, UInt8.toNat_ofNat']
  omega

/-- The first byte tells of the final bit and the code, and reserves three bits. -/
theorem headByte_spec (fin : Bool) (op : OpCode) :
    decide (128 ≤ (headByte fin op).toNat) = fin ∧ (headByte fin op).toNat / 16 % 8 = 0 ∧
      OpCode.find ((headByte fin op).toNat % 16) = some op := by
  cases fin <;> cases op <;> decide

end WebSocketFraming

end Cream.Library
