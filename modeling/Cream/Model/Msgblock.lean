import Cream.Library.Deframing
import Cream.Library.PercentCoding
import Cream.Library.Vlq

/-!
# Message blocks

`chelper/msgblock.c`: the blocks in which the host and a micro-controller exchange messages,
and the integers in them. The firmware's `src/command.c` and `generic/crc16_ccitt.c` have the
same functions once more.

SOURCE: src/app/src/main/klipper/klippy/chelper/msgblock.c:16-103
SOURCE: src/app/src/main/klipper/src/command.c:41-71, generic/crc16_ccitt.c:10-22
-/

set_option autoImplicit false

namespace Cream.Model

open Cream.Library PercentCoding

namespace Msgblock

open Deframing (Verdict)

def MESSAGE_MIN : Nat := 5
def MESSAGE_MAX : Nat := 64
def MESSAGE_HEADER_SIZE : Nat := 2
def MESSAGE_TRAILER_SIZE : Nat := 3
def MESSAGE_POS_LEN : Nat := 0
def MESSAGE_POS_SEQ : Nat := 1
def MESSAGE_TRAILER_CRC : Nat := 3
def MESSAGE_TRAILER_SYNC : Nat := 1
def MESSAGE_PAYLOAD_MAX : Nat := MESSAGE_MAX - MESSAGE_MIN
def MESSAGE_SEQ_MASK : UInt8 := 0x0f
def MESSAGE_DEST : UInt8 := 0x10
def MESSAGE_SYNC : UInt8 := 0x7e

/-- A round of the loop in `msgblock_crc16_ccitt`. -/
def crcRound (crc : UInt16) (data : UInt8) : UInt16 :=
  let data := data ^^^ (crc &&& 0xff).toUInt8
  let data := data ^^^ (data <<< 4)
  ((data.toUInt16 <<< 8) ||| (crc >>> 8)) ^^^ (data >>> 4).toUInt16 ^^^ (data.toUInt16 <<< 3)

def crc16Ccitt (buf : Bytes) : UInt16 := buf.foldl crcRound 0xffff

/-- `encode_int` -/
def encodeInt (v : UInt32) : Bytes :=
  let sv : Int := v.toInt32.toInt
  let f4 := [(v &&& 0x7f).toUInt8]
  let f3 := (((v >>> 7) &&& 0x7f) ||| 0x80).toUInt8 :: f4
  let f2 := (((v >>> 14) &&& 0x7f) ||| 0x80).toUInt8 :: f3
  let f1 := (((v >>> 21) &&& 0x7f) ||| 0x80).toUInt8 :: f2
  if sv < 3 * 2 ^ 5 ∧ sv ≥ -2 ^ 5 then f4
  else if sv < 3 * 2 ^ 12 ∧ sv ≥ -2 ^ 12 then f3
  else if sv < 3 * 2 ^ 19 ∧ sv ≥ -2 ^ 19 then f2
  else if sv < 3 * 2 ^ 26 ∧ sv ≥ -2 ^ 26 then f1
  else ((v >>> 28) ||| 0x80).toUInt8 :: f1

/-- `parse_int`: the integer, and where the pointer is left; `none` when the memory the pointer
points to ends first. -/
def parseInt : Bytes → Option (UInt32 × Bytes) :=
  Vlq.read
    (fun c =>
      let v := UInt32.ofNat c
      if v &&& 0x60 = 0x60 then v ||| -0x20 else v)
    (fun v c => (v <<< 7) ||| UInt32.ofNat c)

/-- The tests that `msgblock_check`, `command_find_block` and `check_packet` make one after the
other. -/
def verdict (buf : Bytes) : Verdict :=
  let byte (i : Nat) := buf.getD i 0
  if buf.length < MESSAGE_MIN then .needMoreData
  else
    let msglen := (byte MESSAGE_POS_LEN).toNat
    if msglen < MESSAGE_MIN ∨ msglen > MESSAGE_MAX then .error
    else if byte MESSAGE_POS_SEQ &&& ~~~MESSAGE_SEQ_MASK ≠ MESSAGE_DEST then .error
    else if buf.length < msglen then .needMoreData
    else if byte (msglen - MESSAGE_TRAILER_SYNC) ≠ MESSAGE_SYNC then .error
    else
      let msgcrc := ((byte (msglen - MESSAGE_TRAILER_CRC)).toUInt16 <<< 8) |||
        (byte (msglen - MESSAGE_TRAILER_CRC + 1)).toUInt16
      if crc16Ccitt (buf.take (msglen - MESSAGE_TRAILER_SIZE)) ≠ msgcrc then .error
      else .block msglen

/-- `msgblock_check`: the new `need_sync`, and the length of the message, or how many bytes are
to be discarded as a negative number, or 0. -/
def msgblockCheck (needSync : Bool) (buf : Bytes) : Bool × Int :=
  if buf.length < MESSAGE_MIN then (needSync, 0)
  else
    match if needSync then .error else verdict buf with
    | .needMoreData => (needSync, 0)
    | .block msglen => (needSync, msglen)
    | .error =>
      match buf.findIdx? (· == MESSAGE_SYNC) with
      | some nextSync => (false, -(nextSync + 1))
      | none => (true, -buf.length)

/-- A block around a payload, as `build_and_send_command`, `command_add_frame` write it. -/
def frame (seq : UInt8) (payload : Bytes) : Bytes :=
  let head := UInt8.ofNat (payload.length + MESSAGE_MIN) :: seq :: payload
  let crc := crc16Ccitt head
  head ++ [(crc >>> 8).toUInt8, (crc &&& 0xff).toUInt8, MESSAGE_SYNC]

end Msgblock

end Cream.Model
