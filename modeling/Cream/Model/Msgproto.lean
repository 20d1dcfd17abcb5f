import Cream.Library.Text
import Cream.Model.Msgblock

/-!
# Messages of the host

`klippy/msgproto.py`: how the host encodes commands and parses integers, by formats it has from
the micro-controller. A position in a packet is what is left of the packet from there on.

SOURCE: msgproto.py:37-187, buildcommands.py:284-299
-/

set_option autoImplicit false

namespace Cream.Model

open Cream.Library PercentCoding

namespace Msgproto

open Msgblock

/-! ## Integers -/

/-- `out.append((v>>n) & 0x7f | 0x80)` -/
def appendGroup (v : Int) (n : Nat) : Bytes := [UInt8.ofNat ((v >>> n) % 128 + 128).toNat]

/-- `PT_uint32.encode` -/
def encodeInt (v : Int) : Bytes :=
  (if v ≥ 0xc000000 ∨ v < -0x4000000 then appendGroup v 28 else []) ++
  (if v ≥ 0x180000 ∨ v < -0x80000 then appendGroup v 21 else []) ++
  (if v ≥ 0x3000 ∨ v < -0x1000 then appendGroup v 14 else []) ++
  (if v ≥ 0x60 ∨ v < -0x20 then appendGroup v 7 else []) ++
  [UInt8.ofNat (v % 128).toNat]

/-- `PT_uint32.parse`; to set the bits from `-0x20` on in a number that has the two of `0x60` is
to subtract `0x80`. -/
def parseInt (isSigned : Bool) (s : Bytes) : Option (Int × Bytes) := do
  let (v, s) ← Vlq.read
    (fun (c : Nat) => if c &&& 0x60 = 0x60 then (c : Int) - 0x80 else c)
    (fun (v : Int) (c : Nat) => v * 128 + c) s
  some (if isSigned then v else v % 0x100000000, s)

/-! ## Parameters -/

inductive ParamType where
  | uint32
  | int32
  | uint16
  | int16
  | byte
  | string
  | progmemBuffer
  | buffer
deriving DecidableEq, Repr

/-- `is_int` -/
def ParamType.isInt : ParamType → Bool
  | .uint32 | .int32 | .uint16 | .int16 | .byte => true
  | .string | .progmemBuffer | .buffer => false

/-- The values of parameters. -/
inductive Value where
  | int (v : Int)
  | bytes (v : Bytes)
  /-- a key of an enumeration -/
  | name (key : Text)
deriving DecidableEq

/-- A parameter is encoded by its type, or by the type of its enumeration. -/
structure Codec where
  pt : ParamType
  /-- `enums` -/
  enums : Option (List (Text × Int))
deriving DecidableEq

/-- `encode` of a type; `none` for values of another kind, and for texts whose length is no byte. -/
def ParamType.encode (pt : ParamType) : Value → Option Bytes
  | .int v => if pt.isInt then some (encodeInt v) else none
  | .bytes v =>
    if pt.isInt = false ∧ v.length < 256 then some (UInt8.ofNat v.length :: v) else none
  | _ => none

/-- `encode` of a parameter, `Enumeration.encode` among them. -/
def Codec.encode (c : Codec) (v : Value) : Option Bytes :=
  match c.enums, v with
  | none, v => c.pt.encode v
  | some enums, .name key => do
    let tv ← enums.lookup key
    c.pt.encode (.int tv)
  | some _, _ => none

/-! ## Messages -/

/-- `MessageFormat` -/
structure MessageFormat where
  msgidBytes : Bytes
  name : Text
  /-- `param_names` -/
  params : List (Text × Codec)

/-- The rounds of the loop in `encode`; `none` when a value is missing. -/
def encodeParams : List (Text × Codec) → List Value → Option Bytes
  | [], _ => some []
  | _ :: _, [] => none
  | (_, t) :: params, v :: values => do
    let out ← t.encode v
    let rest ← encodeParams params values
    some (out ++ rest)

/-- `MessageFormat.encode` -/
def MessageFormat.encode (f : MessageFormat) (values : List Value) : Option Bytes :=
  (encodeParams f.params values).map (f.msgidBytes ++ ·)

/-! ## Message ids -/

/-- `convert_encoded_msgid` of `scripts/buildcommands.py`: the id the firmware gives a message, as
the host knows it. -/
def convertEncodedMsgid (encodedMsgid : Nat) : Option Int :=
  let data : List Nat :=
    if encodedMsgid ≥ 0x80 then [(encodedMsgid >>> 7) ||| 0x80, encodedMsgid &&& 0x7f]
    else [encodedMsgid]
  (parseInt true (data.map UInt8.ofNat)).map Prod.fst

end Msgproto

end Cream.Model
