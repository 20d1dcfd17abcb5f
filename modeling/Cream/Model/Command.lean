import Cream.Model.Msgblock
import Cream.Model.Msgproto

/-!
# Commands in the firmware

`src/command.c`, and the serial console that runs it (`src/generic/serial_irq.c`): the
micro-controller finds the blocks of the host, runs the commands in them and answers. A pointer
into a block is what is left of the block from there on. A command that shuts the machine down
leaves `command_dispatch`, and the console with it, for the main loop (`sched_shutdown`); a
shutdown by an interrupt in the middle of the console is not among what can happen here.

SOURCE: src/app/src/main/klipper/src/command.c:41-130, 268-366, generic/serial_irq.c:27-91
-/

set_option autoImplicit false

namespace Cream.Model

open Cream.Library PercentCoding

namespace Command

open Msgblock
open Msgproto (ParamType)

/-! ## Commands -/

/-- An entry of `args`; a buffer takes two, its length and a pointer to it. -/
inductive Arg where
  | int (v : UInt32)
  | ptr (p : Bytes)
deriving DecidableEq

structure CommandParser where
  /-- `flags & HF_IN_SHUTDOWN` -/
  inShutdown : Bool
  paramTypes : List ParamType

/-- `command_parse_msgid` -/
def parseMsgid : Bytes → Option (Nat × Bytes)
  | [] => none
  | c :: p =>
    if c &&& 0x80 = 0 then some (c.toNat, p)
    else
      match p with
      | [] => none
      | d :: p => some (((c &&& 0x7f).toNat <<< 7) ||| d.toNat, p)

/-- `command_parsef`: the arguments, and where the pointer is left; `none` where it shuts the
machine down. Nothing but the trailer is left at `maxend`. -/
def parsef : List ParamType → Bytes → Option (List Arg × Bytes)
  | [], p => some ([], p)
  | t :: paramTypes, p =>
    if p.length < MESSAGE_TRAILER_SIZE then none
    else
      match t with
      | .uint32 | .int32 | .uint16 | .int16 | .byte => do
        let (v, p) ← parseInt p
        let (args, p) ← parsef paramTypes p
        some (.int v :: args, p)
      | .buffer =>
        match p with
        | [] => none
        | len :: p =>
          if p.length < len.toNat + MESSAGE_TRAILER_SIZE then none
          else do
            let (args, q) ← parsef paramTypes (p.drop len.toNat)
            some (.int len.toUInt32 :: .ptr p :: args, q)
      | .string | .progmemBuffer => none

/-- The firmware: what it has compiled in, and what its handlers do to the machine `σ`. -/
structure Firmware (σ : Type) where
  /-- `command_index`; a number below the highest one that is no command has an entry without
  anything in it -/
  commandIndex : List (Option CommandParser)
  /-- the handler, or the null pointer of an entry that has none; `none` when it shuts the machine
  down -/
  func : Nat → List Arg → σ → Option σ
  /-- `sched_is_shutdown` -/
  isShutdown : σ → Bool

/-- A command that was found, and whether its handler was run. -/
structure Call where
  cmdid : Nat
  args : List Arg
  run : Bool
deriving DecidableEq

/-- The end of `command_dispatch`: the machine, or that it was shut down, and the commands up to
there. -/
structure Dispatched (σ : Type) where
  machine : Option σ
  calls : List Call

/-- `command_lookup_parser`; `none` where it shuts the machine down. In an entry without anything
in it no flag is set, and there are no parameters. -/
def lookupParser {σ : Type} (fw : Firmware σ) (cmdid : Nat) : Option CommandParser :=
  if cmdid = 0 then none else fw.commandIndex[cmdid]?.map fun entry => entry.getD ⟨false, []⟩

/-- The loop of `command_dispatch`; every round takes one byte at least, so there are at most as
many as there are bytes. -/
def dispatchFrom {σ : Type} (fw : Firmware σ) : Nat → σ → Bytes → Dispatched σ
  | 0, m, _ => ⟨some m, []⟩
  | fuel + 1, m, p =>
    if p.length ≤ MESSAGE_TRAILER_SIZE then ⟨some m, []⟩
    else
      match parseMsgid p with
      | none => ⟨none, []⟩
      | some (cmdid, p) =>
        match lookupParser fw cmdid with
        | none => ⟨none, []⟩
        | some cp =>
          match parsef cp.paramTypes p with
          | none => ⟨none, []⟩
          | some (args, p) =>
            if fw.isShutdown m ∧ cp.inShutdown = false then
              let d := dispatchFrom fw fuel m p
              { d with calls := ⟨cmdid, args, false⟩ :: d.calls }
            else
              match fw.func cmdid args m with
              | none => ⟨none, [⟨cmdid, args, true⟩]⟩
              | some m =>
                let d := dispatchFrom fw fuel m p
                { d with calls := ⟨cmdid, args, true⟩ :: d.calls }

/-- `command_dispatch` -/
def dispatch {σ : Type} (fw : Firmware σ) (m : σ) (block : Bytes) : Dispatched σ :=
  dispatchFrom fw block.length m (block.drop MESSAGE_HEADER_SIZE)

/-! ## Blocks -/

/-- `sync_state` and `next_sequence` -/
structure Receiver where
  needSync : Bool
  needValid : Bool
  nextSequence : UInt8
deriving DecidableEq

/-- `ret`, `*pop_count`, and whether an empty message was sent. -/
structure Find where
  receiver : Receiver
  ret : Int
  popCount : Nat
  nak : Bool

/-- The discarding in `command_find_block` behind `need_sync`. -/
def discard (r : Receiver) (buf : Bytes) : Find :=
  match buf.findIdx? (· == MESSAGE_SYNC) with
  | some nextSync =>
    ⟨{ r with needSync := false, needValid := true }, -1, nextSync + 1, !r.needValid⟩
  | none => ⟨{ r with needValid := true }, -1, buf.length, !r.needValid⟩

/-- `((msgseq + 1) & MESSAGE_SEQ_MASK) | MESSAGE_DEST` -/
def following (msgseq : UInt8) : UInt8 := ((msgseq + 1) &&& MESSAGE_SEQ_MASK) ||| MESSAGE_DEST

/-- `command_find_block` -/
def findBlock (r : Receiver) (buf : Bytes) : Find :=
  if buf ≠ [] ∧ r.needSync then discard r buf
  else
    match verdict buf with
    | .needMoreData => ⟨r, 0, 0, false⟩
    | .error =>
      if buf.head? = some MESSAGE_SYNC then ⟨r, -1, 1, false⟩
      else discard { r with needSync := true } buf
    | .block msglen =>
      let msgseq := buf.getD MESSAGE_POS_SEQ 0
      let r := { r with needValid := false }
      if msgseq ≠ r.nextSequence then ⟨r, -1, msglen, true⟩
      else ⟨{ r with nextSequence := following msgseq }, 1, msglen, false⟩

/-- What the console does. -/
inductive Output where
  /-- `command_dispatch` is called for a block -/
  | dispatched (block : Bytes)
  /-- an empty message with this sequence number is sent -/
  | acknak (seq : UInt8)
  /-- `bootloader_request`, if it comes back -/
  | bootloaderRequest
deriving DecidableEq

/-! ## The serial console -/

def RX_BUFFER_SIZE : Nat := 192

structure Console where
  receiver : Receiver
  receiveBuf : Bytes
  /-- `tasks_status` is `TS_REQUESTED` -/
  woken : Bool
  /-- `CONFIG_HAVE_BOOTLOADER_REQUEST` -/
  haveBootloaderRequest : Bool
deriving DecidableEq

/-- `serial_rx_byte` -/
def serialRxByte (c : Console) (data : UInt8) : Console :=
  let c := { c with woken := c.woken || data == MESSAGE_SYNC }
  if c.receiveBuf.length ≥ RX_BUFFER_SIZE then c
  else { c with receiveBuf := c.receiveBuf ++ [data] }

/-- `console_pop_input` -/
def consolePopInput (len : Nat) (c : Console) : Console :=
  let needcopy := c.receiveBuf.drop len
  { c with receiveBuf := needcopy, woken := c.woken || needcopy ≠ [] }

/-- `" \x1c Request Serial Bootloader!! ~"` -/
def bootloaderMessage : Bytes :=
  [0x20, 0x1c, 0x20, 0x52, 0x65, 0x71, 0x75, 0x65, 0x73, 0x74, 0x20, 0x53, 0x65, 0x72, 0x69, 0x61,
    0x6c, 0x20, 0x42, 0x6f, 0x6f, 0x74, 0x6c, 0x6f, 0x61, 0x64, 0x65, 0x72, 0x21, 0x21, 0x20, 0x7e]

/-- Whether what is discarded asks for the bootloader. -/
def requestsBootloader (c : Console) (f : Find) : Bool :=
  c.haveBootloaderRequest && decide (f.ret < 0) && decide (f.popCount = 32) &&
    decide (c.receiveBuf.take 32 = bootloaderMessage)

/-- What `console_task` does with what it finds, when it comes to its end. -/
def answer (c : Console) (f : Find) : List Output :=
  if f.ret > 0 then
    [.dispatched (c.receiveBuf.take f.popCount), .acknak f.receiver.nextSequence]
  else
    (if f.nak then [.acknak f.receiver.nextSequence] else []) ++
      if requestsBootloader c f then [.bootloaderRequest] else []

/-- A run of `console_task`; bytes may be received until it pops what it has found. If a command of
the block that it has found shuts the machine down (not `completes`), the run ends in
`command_dispatch`: the block stays in the buffer, is not acknowledged, and the main loop goes to
sleep unless a byte has woken it. -/
def consoleTask (completes : Bool) (meanwhile : Bytes) (c : Console) : Console × List Output :=
  let f := findBlock c.receiver c.receiveBuf
  let received := meanwhile.foldl serialRxByte { c with receiver := f.receiver, woken := false }
  if f.ret = 0 then (received, [])
  else if f.ret > 0 ∧ completes = false then
    (received, [.dispatched (c.receiveBuf.take f.popCount)])
  else (consolePopInput f.popCount received, answer c f)

/-- The interrupt of a byte, or a run of the task with the interrupts in it. -/
inductive Event where
  | rx (data : UInt8)
  | task (completes : Bool) (meanwhile : Bytes)

def step (c : Console) : Event → Console × List Output
  | .rx data => (serialRxByte c data, [])
  | .task completes meanwhile => consoleTask completes meanwhile c

def run : Console → List Event → Console × List Output
  | c, [] => (c, [])
  | c, e :: events => ((run (step c e).1 events).1, (step c e).2 ++ (run (step c e).1 events).2)

end Command

end Cream.Model
