import Cream.Analysis.BlockFraming
import Cream.Analysis.SerialAccounts
import Cream.Library.GoBackN

/-!
# From the host's queues to the firmware

The serial queue of the host and the console of the firmware at the two ends of a line that keeps
the order but may lose any block, and in which the firmware may come upon bytes that are none at
any time. A block that arrives is one that was sent: what a checksum lets through is another
matter (`burst_accepted_iff`). Both ends know of a number its last four bits only, and when the
host opens the port the firmware may expect any of them. Together they are a sliding window
(`step_simulates`), so the firmware runs just the blocks that the host built, in order and without
gaps, from the one on with which it started (`blocks_in_order`). What the host counts as
acknowledged was taken, or has a number before that one (`acknowledged_taken`). A notification
tells that the firmware is through with a block (`notified_dispatched`), and however much was lost,
nothing gets stuck (`recovers`).

SOURCE: src/app/src/main/klipper/klippy/chelper/serialqueue.c:159-297, 396-442, 583-609
(`update_receive_seq`, `handle_message`, `retransmit_event`, `command_event`)
SOURCE: src/app/src/main/klipper/src/command.c:268-366 (`command_find_block`, `command_dispatch`,
`command_send_ack`)
SOURCE: src/app/src/main/klipper/src/generic/serial_irq.c:72-90 (`console_task`)
-/

set_option autoImplicit false

namespace Cream.Analysis.SerialDelivery

open Cream.Library Cream.Model PercentCoding Msgblock
open Command (Receiver Output handle following)
open SerialQueue (Clock Accounts Built block notifying ofQueue queued seqByte payload)

/-! ## Both ends -/

/-- The messages in a block, with the queues they come from. -/
abbrev Taken := List (Nat × QueueMessage)

/-- The host, the firmware, and what is on the way between them. -/
structure System where
  host : SerialQueue
  receiver : Receiver
  /-- the block whose commands the firmware is running, or that it has left in its buffer when one
  of them shut the machine down -/
  running : Option Bytes
  /-- blocks on the way to the firmware, the oldest first -/
  toMcu : List Bytes
  /-- messages on the way to the host -/
  toHost : List Bytes
  /-- all blocks that were built -/
  built : List (Nat × Taken)
  /-- the blocks the firmware is through with: all of their commands were run, or those up to one
  that shut the machine down -/
  dispatched : List Bytes
  /-- which of the blocks were not run to their end -/
  halted : List Nat
  /-- what was put into the queues -/
  submitted : List (Nat × QueueMessage)
  /-- what was pulled from the host's receive queue -/
  pulled : List Received

inductive Event where
  /-- something happens at the host, other than that bytes arrive -/
  | host (e : SerialQueue.Event)
  /-- a message arrives at the host -/
  | message
  /-- a block arrives at the firmware -/
  | block
  /-- the firmware comes upon bytes that are no block -/
  | bad (first : UInt8)
  /-- a command of the block that is being run shuts the machine down -/
  | shutdown
  /-- the firmware answers the block that it has taken: its commands have been run, or one has shut
  the machine down, and the console finds the block in its buffer again -/
  | finish
  /-- the firmware sends a message -/
  | reply (payload : Bytes)
  | loseBlock (i : Nat)
  | loseMessage (i : Nat)

/-- What the host writes at an event. -/
def written (sq : SerialQueue) : SerialQueue.Event → List Bytes
  | .command clock => (sq.commandEvent clock).2.map SerialQueue.block
  | .retransmit => sq.retransmitEvent.2
  | _ => []

/-- What an event puts into the queues. -/
def submission : SerialQueue.Event → List (Nat × QueueMessage)
  | .send id msgs =>
    if SerialQueue.bytes msgs ≠ 0 then
      (msgs.map SerialQueue.adjustMinClock).map fun qm => (id, qm)
    else []
  | _ => []

/-- What an event takes from the host's receive queue. -/
def pulls (sq : SerialQueue) : SerialQueue.Event → List Received
  | .pull => sq.receiveQueue.head?.toList
  | _ => []

/-- Something happens at the host. -/
def System.hostStep (s : System) (e : SerialQueue.Event) : Option System :=
  (s.host.step e).map fun host =>
    { s with
      host
      toMcu := s.toMcu ++ written s.host e
      built := s.built ++ e.blocks s.host
      submitted := s.submitted ++ submission e
      pulled := s.pulled ++ pulls s.host e }

/-- The firmware sends a message, with the number it expects. -/
def System.send (s : System) (payload : Bytes) : System :=
  { s with toHost := s.toHost ++ [frame s.receiver.nextSequence payload] }

/-- One event; `none` when it cannot happen. -/
def step (s : System) : Event → Option System
  | .host (.input _) => none
  | .host e => s.hostStep e
  | .message =>
    match s.toHost with
    | [] => none
    | msg :: toHost => some { s with host := s.host.handleMessage msg, toHost }
  | .block =>
    match s.running, s.toMcu with
    | none, b :: toMcu =>
      let s' := { s with receiver := (handle s.receiver (.frame b)).1, toMcu }
      if b.getD MESSAGE_POS_SEQ 0 = s.receiver.nextSequence then
        -- the commands are run before the block is acknowledged
        some { s' with running := some b }
      else some (s'.send [])
    | _, _ => none
  | .bad first =>
    match s.running with
    | none =>
      let s' := { s with receiver := (handle s.receiver (.bad first)).1 }
      some (if (handle s.receiver (.bad first)).2 = [] then s' else s'.send [])
    | some _ => none
  | .shutdown =>
    -- the block that is being run is the next one in `dispatched`
    if s.running = none ∨ s.dispatched.length ∈ s.halted then none
    else some { s with halted := s.halted ++ [s.dispatched.length] }
  | .finish =>
    match s.running with
    | none => none
    | some b => some ({ s with running := none, dispatched := s.dispatched ++ [b] }.send [])
  | .reply payload =>
    if payload = [] ∨ MESSAGE_PAYLOAD_MAX < payload.length then none else some (s.send payload)
  | .loseBlock i => some { s with toMcu := s.toMcu.eraseIdx i }
  | .loseMessage i => some { s with toHost := s.toHost.eraseIdx i }

/-- The first of the host's numbers that the firmware expects, when the host opens the port and
starts with 1: any of the sixteen that four bits can tell. -/
structure Start where
  number : Nat
  pos : 1 ≤ number
  le : number ≤ 16

/-- A host that has just opened the port; the firmware may be new, or in the middle of its work. -/
def initial (start : Start) (needSync needValid : Bool) : System where
  host := .alloc
  receiver := ⟨needSync, needValid, seqByte start.number⟩
  running := none
  toMcu := []
  toHost := []
  built := []
  dispatched := []
  halted := []
  submitted := []
  pulled := []

/-! ## The window -/

/-- The host starts with the number 1. -/
def config (start : Start) : GoBackN.Config where
  modulus := 16
  window := MAX_PENDING_BLOCKS
  first := 1
  start := start.number
  first_le := start.pos
  near := by
    have := start.le
    omega
  small := by decide

/-- Numbers with the same four bits. -/
theorem seqByte_eq_iff (a b : Nat) : seqByte a = seqByte b ↔ a % 16 = b % 16 := by
  have hall : ∀ a < 16, ∀ b < 16,
      MESSAGE_DEST ||| UInt8.ofNat a = MESSAGE_DEST ||| UInt8.ofNat b → a = b := by decide
  constructor
  · exact hall _ (Nat.mod_lt _ (by norm_num)) _ (Nat.mod_lt _ (by norm_num))
  · intro h
    rw [seqByte, h, seqByte]

/-- The number after a number. -/
theorem following_seqByte (n : Nat) : following (seqByte n) = seqByte (n + 1) := by
  have hall : ∀ a < 16, following (MESSAGE_DEST ||| UInt8.ofNat a) =
      MESSAGE_DEST ||| UInt8.ofNat ((a + 1) % 16) := by decide
  have h := hall (n % 16) (Nat.mod_lt _ (by norm_num))
  rw [seqByte, seqByte, h, Nat.add_mod]
  simp

/-- The bits of a number. -/
theorem toNat_seqByte (n : Nat) : (seqByte n).toNat = 16 + n % 16 := by
  have hall : ∀ a < 16, (MESSAGE_DEST ||| UInt8.ofNat a).toNat = 16 + a := by decide
  exact hall _ (Nat.mod_lt _ (by norm_num))

/-- The host finds the number that is meant. -/
theorem receivedSeq_frame (sq : SerialQueue) (k : Nat) (payload : Bytes) :
    sq.receivedSeq (frame (seqByte k) payload) = GoBackN.decode 16 sq.receiveSeq k := by
  have hbyte : (frame (seqByte k) payload).getD MESSAGE_POS_SEQ 0 = seqByte k := rfl
  rw [SerialQueue.receivedSeq, hbyte, toNat_seqByte, GoBackN.decode]
  omega

/-- The notifications among what the host receives. -/
def notifications (received : List Received) : List Nat :=
  received.filterMap fun r =>
    match r with
    | .notified id => some id
    | .message _ => none

/-- The system, seen as a sliding window. -/
structure View where
  window : GoBackN.State Taken
  /-- the messages on the way to the host: the number in full, and the payload -/
  replies : List (Nat × Bytes)
  /-- the block that is being run -/
  last : Option (Nat × Taken)
  /-- the blocks the firmware is through with -/
  done : List (Nat × Taken)
  /-- the messages whose notification has come, with the numbers of their blocks -/
  woken : List (Nat × QueueMessage)

/-- The system, and how it is seen. -/
structure Linked (start : Start) (s : System) (v : View) : Prop where
  accounts : Accounts s.host
  base : v.window.base = s.host.receiveSeq
  next : v.window.next = s.host.sendSeq
  sent : v.window.sent = s.built
  expected : s.receiver.nextSequence = seqByte v.window.expected
  data : s.toMcu = v.window.data.map block
  acks : v.window.acks = v.replies.map (·.1)
  replies : s.toHost = v.replies.map fun r => frame (seqByte r.1) r.2
  outstanding : s.host.sentQueue = v.window.outstanding.map block
  running : s.running = v.last.map block
  delivered : v.window.delivered = v.done ++ v.last.toList
  dispatched : s.dispatched = v.done.map block
  /-- the block that is being run is the last one that was taken -/
  last : ∀ x ∈ v.last, x.1 + 1 = v.window.expected
  /-- an empty message tells that the firmware is through with what it has taken -/
  finished : ∀ r ∈ v.replies, r.2 = [] → r.1 + v.last.toList.length ≤ v.window.expected
  notify : v.woken ++ s.host.notifyQueue = s.built.flatMap notifying
  received : notifications (s.pulled ++ s.host.receiveQueue) = v.woken.map (·.2.notifyId)
  /-- the firmware is through with blocks whose notifications have come -/
  woken : 1 < start.number → ∀ e ∈ v.woken, e.1 + v.last.toList.length < v.window.expected
  order : ∀ id, ofQueue id s.submitted =
    ofQueue id (s.built.flatMap (·.2)) ++ queued id s.host.pendingQueues

/-- Nothing has been built yet. -/
def View.initial (start : Start) : View := ⟨GoBackN.initial (config start), [], none, [], []⟩

/-- The two belong together at the start. -/
theorem linked_initial (start : Start) (needSync needValid : Bool) :
    Linked start (initial start needSync needValid) (.initial start) where
  accounts := SerialQueue.accounts_alloc
  base := rfl
  next := rfl
  sent := rfl
  expected := rfl
  data := rfl
  acks := rfl
  replies := rfl
  outstanding := rfl
  running := rfl
  delivered := rfl
  dispatched := rfl
  last := by simp [View.initial]
  finished := by simp [View.initial]
  notify := rfl
  received := rfl
  woken := by simp [View.initial]
  order _ := rfl

/-- What one state of the system and the next have to do with the window. -/
def Simulates (start : Start) (v : View) (s' : System) : Prop :=
  ∃ events v', Transition.run (GoBackN.step (config start)) v.window events = some v'.window ∧
    Linked start s' v'

section Steps

variable {start : Start} {s : System} {v : View}

/-- The host has not moved, as far as the window goes. -/
theorem Linked.host (h : Linked start s v) {host : SerialQueue} (haccounts : Accounts host)
    (hbase : host.receiveSeq = s.host.receiveSeq) (hnext : host.sendSeq = s.host.sendSeq)
    (hsent : host.sentQueue = s.host.sentQueue) (hnotify : host.notifyQueue = s.host.notifyQueue)
    {submitted : List (Nat × QueueMessage)} {pulled : List Received}
    (hreceived : pulled ++ host.receiveQueue = s.pulled ++ s.host.receiveQueue)
    (horder : ∀ id, ofQueue id submitted =
      ofQueue id (s.built.flatMap (·.2)) ++ queued id host.pendingQueues) :
    Linked start { s with host, submitted, pulled } v where
  accounts := haccounts
  base := h.base.trans hbase.symm
  next := h.next.trans hnext.symm
  sent := h.sent
  expected := h.expected
  data := h.data
  acks := h.acks
  replies := h.replies
  outstanding := hsent.trans h.outstanding
  running := h.running
  delivered := h.delivered
  dispatched := h.dispatched
  last := h.last
  finished := h.finished
  notify := by
    dsimp only
    rw [hnotify, h.notify]
  received := by
    dsimp only
    rw [hreceived, h.received]
  woken := h.woken
  order := horder

/-- The firmware sends a message. -/
theorem Linked.send (h : Linked start s v) (payload : Bytes)
    (hidle : payload = [] → v.last = none) : Simulates start v (s.send payload) := by
  refine ⟨[.answer], { v with
    window := { v.window with acks := v.window.acks ++ [v.window.expected] }
    replies := v.replies ++ [(v.window.expected, payload)] }, rfl, ?_⟩
  exact { h with
    acks := by
      dsimp only
      rw [h.acks, List.map_append]
      rfl
    replies := by
      simp only [System.send]
      rw [h.replies, List.map_append, h.expected]
      rfl
    finished := by
      intro r hr hempty
      rcases List.mem_append.mp hr with hr | hr
      · exact h.finished r hr hempty
      · rw [List.mem_singleton.mp hr] at hempty ⊢
        rw [hidle hempty]
        rfl }

/-- A block is lost. -/
theorem Linked.loseBlock (h : Linked start s v) (i : Nat) :
    Simulates start v { s with toMcu := s.toMcu.eraseIdx i } := by
  refine ⟨[.loseData i], { v with
    window := { v.window with data := v.window.data.eraseIdx i } }, rfl, ?_⟩
  exact { h with
    data := by
      dsimp only
      rw [h.data, List.eraseIdx_map] }

/-- A message is lost. -/
theorem Linked.loseMessage (h : Linked start s v) (i : Nat) :
    Simulates start v { s with toHost := s.toHost.eraseIdx i } := by
  refine ⟨[.loseAck i], { v with
    window := { v.window with acks := v.window.acks.eraseIdx i }
    replies := v.replies.eraseIdx i }, rfl, ?_⟩
  exact { h with
    acks := by
      dsimp only
      rw [h.acks, List.eraseIdx_map]
    replies := by
      dsimp only
      rw [h.replies, List.eraseIdx_map]
    finished := fun r hr => h.finished r (List.mem_of_mem_eraseIdx hr) }

/-- The number in a block. -/
theorem getD_block (x : Nat × Taken) : (block x).getD MESSAGE_POS_SEQ 0 = seqByte x.1 := rfl

/-- **The firmware takes a block**: it is the next one. -/
theorem Linked.take (h : Linked start s v) (hinv : GoBackN.Inv (config start) v.window)
    (hidle : v.last = none) {b : Bytes} {toMcu : List Bytes} (hdata : s.toMcu = b :: toMcu)
    (hseq : b.getD MESSAGE_POS_SEQ 0 = s.receiver.nextSequence) :
    Simulates start v { s with
      receiver := (handle s.receiver (.frame b)).1, toMcu, running := some b } := by
  rw [h.data] at hdata
  obtain ⟨x, data, hwindow, rfl, rfl⟩ := List.map_eq_cons_iff.mp hdata
  have hmod : x.1 % (config start).modulus = v.window.expected % (config start).modulus := by
    rw [getD_block, h.expected, seqByte_eq_iff] at hseq
    exact hseq
  obtain ⟨hnumber, -⟩ := hinv.taken (by rw [hwindow]; exact List.mem_cons_self) hmod
  have hreceiver : (handle s.receiver (.frame (block x))).1.nextSequence =
      following s.receiver.nextSequence := by
    simp only [handle, hseq, ne_eq, not_true_eq_false, if_false]
  have hrunning : v.window.delivered = v.done := by
    rw [h.delivered, hidle]
    simp
  refine ⟨[.deliver], { v with
    window := { v.window with
      data, expected := v.window.expected + 1, delivered := v.window.delivered ++ [x] }
    last := some x }, ?_, ?_⟩
  · rw [Transition.run, GoBackN.step, hwindow]
    simp only [hmod, if_true, Option.bind_some, Transition.run_nil]
  · exact { h with
      expected := by
        dsimp only
        rw [hreceiver, h.expected, following_seqByte]
      data := rfl
      running := rfl
      delivered := by
        dsimp only
        rw [hrunning]
        rfl
      last := fun y hy => by
        have hxy : x = y := by simpa using hy
        rw [← hxy, hnumber]
      finished := fun r hr hempty => by
        have := h.finished r hr hempty
        rw [hidle] at this
        simpa using this
      woken := fun hstart e he => by
        have := h.woken hstart e he
        rw [hidle] at this
        simpa using this }

/-- **The firmware refuses a block**, and sends the number it expects. -/
theorem Linked.refuse (h : Linked start s v) (hidle : v.last = none) {b : Bytes} {toMcu : List Bytes}
    (hdata : s.toMcu = b :: toMcu) (hseq : b.getD MESSAGE_POS_SEQ 0 ≠ s.receiver.nextSequence) :
    Simulates start v
      (System.send { s with receiver := (handle s.receiver (.frame b)).1, toMcu } []) := by
  rw [h.data] at hdata
  obtain ⟨x, data, hwindow, rfl, rfl⟩ := List.map_eq_cons_iff.mp hdata
  have hmod : ¬x.1 % (config start).modulus = v.window.expected % (config start).modulus := by
    rw [getD_block, h.expected, ne_eq, seqByte_eq_iff] at hseq
    exact hseq
  have hreceiver : (handle s.receiver (.frame (block x))).1.nextSequence =
      s.receiver.nextSequence := by
    simp only [handle, hseq, ne_eq, not_false_eq_true, if_true]
  have hrefused : Linked start { s with
      receiver := (handle s.receiver (.frame (block x))).1, toMcu := data.map block }
      { v with window := { v.window with data } } :=
    { h with
      expected := hreceiver.trans h.expected
      data := rfl }
  obtain ⟨events, v', hrun, hlinked⟩ := hrefused.send [] fun _ => hidle
  refine ⟨.deliver :: events, v', ?_, hlinked⟩
  rw [Transition.run, GoBackN.step, hwindow]
  simp only [hmod, if_false, Option.bind_some]
  exact hrun

/-- The firmware comes upon bytes that are no block. -/
theorem Linked.bad (h : Linked start s v) (hidle : v.last = none) (first : UInt8) :
    let s' : System := { s with receiver := (handle s.receiver (.bad first)).1 }
    Simulates start v (if (handle s.receiver (.bad first)).2 = [] then s' else s'.send []) := by
  have hreceiver : (handle s.receiver (.bad first)).1.nextSequence = s.receiver.nextSequence := by
    simp only [handle]
    split <;> rfl
  have hlinked : Linked start { s with receiver := (handle s.receiver (.bad first)).1 } v :=
    { h with expected := hreceiver.trans h.expected }
  dsimp only
  split
  · exact ⟨[], v, rfl, hlinked⟩
  · exact hlinked.send [] fun _ => hidle

/-- A command shuts the machine down; the block stays where it is. -/
theorem Linked.shutdown (h : Linked start s v) (halted : List Nat) :
    Simulates start v { s with halted } :=
  ⟨[], v, rfl, { h with }⟩

/-- The firmware is through with a block. -/
theorem Linked.finish (h : Linked start s v) {b : Bytes} (hrunning : s.running = some b) :
    Simulates start v
      (System.send { s with running := none, dispatched := s.dispatched ++ [b] } []) := by
  rw [h.running] at hrunning
  obtain ⟨x, hlast, rfl⟩ := Option.map_eq_some_iff.mp hrunning
  have hfinished : Linked start { s with running := none, dispatched := s.dispatched ++ [block x] }
      { v with last := none, done := v.done ++ [x] } :=
    { h with
      running := rfl
      delivered := by
        dsimp only
        rw [h.delivered, hlast]
        simp
      dispatched := by
        dsimp only
        rw [h.dispatched, List.map_append]
        rfl
      last := by simp
      finished := fun r hr hempty => by
        have := h.finished r hr hempty
        dsimp only [Option.toList_none, List.length_nil]
        omega
      woken := fun hstart e he => by
        have := h.woken hstart e he
        dsimp only [Option.toList_none, List.length_nil]
        omega }
  obtain ⟨events, v', hrun, hlinked⟩ := hfinished.send [] fun _ => rfl
  exact ⟨events, v', hrun, hlinked⟩

/-- Up to which block a message of the firmware wakes. -/
theorem wakeSeq_le {k : Nat} (hk : 2 ≤ k) (payload : Bytes) :
    SerialQueue.wakeSeq k (frame (seqByte k) payload).length + (if payload = [] then 1 else 2) ≤
      k := by
  have hlen : (frame (seqByte k) payload).length > MESSAGE_MIN ↔ payload ≠ [] := by
    rw [length_frame, ← List.length_pos_iff]
    omega
  unfold SerialQueue.wakeSeq
  by_cases hempty : payload = []
  · have hno : ¬(frame (seqByte k) payload).length > MESSAGE_MIN := by
      rw [hlen]
      exact not_not.mpr hempty
    rw [if_neg hno, if_pos hempty]
    omega
  · rw [if_pos (hlen.mpr hempty), if_neg hempty]
    omega

/-- Notifications behind each other. -/
theorem notifications_append (a b : List Received) :
    notifications (a ++ b) = notifications a ++ notifications b := List.filterMap_append ..

/-- The notifications of some messages. -/
theorem notifications_map (woken : List (Nat × QueueMessage)) :
    notifications (woken.map (.notified ·.2.notifyId)) = woken.map (·.2.notifyId) := by
  unfold notifications
  rw [List.filterMap_map]
  exact List.filterMap_eq_map.symm ▸ rfl

/-- **A message arrives at the host**, which believes it. -/
theorem Linked.message (h : Linked start s v) (hinv : GoBackN.Inv (config start) v.window)
    {msg : Bytes} {toHost : List Bytes} (hmsg : s.toHost = msg :: toHost) :
    Simulates start v { s with host := s.host.handleMessage msg, toHost } := by
  rw [h.replies] at hmsg
  obtain ⟨r, replies, hreplies, rfl, rfl⟩ := List.map_eq_cons_iff.mp hmsg
  have hacks : v.window.acks = r.1 :: replies.map (·.1) := by
    rw [h.acks, hreplies]
    rfl
  have hmem : r.1 ∈ v.window.acks := by
    rw [hacks]
    exact List.mem_cons_self
  have hle := hinv.acks_le r.1 hmem
  have hbelieved := hinv.believed hmem
  have hseq : s.host.receivedSeq (frame (seqByte r.1) r.2) = r.1 := by
    rw [receivedSeq_frame, ← h.base]
    exact hinv.decode hmem
  have hstart : start.number ≤ r.1 := hinv.acks_start r.1 hmem
  obtain ⟨haccounts, hpending, -, hrefused | hhandled⟩ :=
    SerialQueue.handleMessage_spec h.accounts (frame (seqByte r.1) r.2)
  · rw [hseq, ← h.base, ← h.next] at hrefused
    exact absurd ⟨hrefused.1, hrefused.2.1⟩ hbelieved
  obtain ⟨-, hreceive, hsend, hsent, hnotify, hreceived⟩ := hhandled
  rw [hseq] at hreceive hsend hsent hnotify hreceived
  refine ⟨[.ack], { v with
    window := { v.window with
      acks := replies.map (·.1), base := r.1, next := max v.window.next r.1 }
    replies
    woken := v.woken ++ s.host.notifyQueue.takeWhile
      (·.1 ≤ SerialQueue.wakeSeq r.1 (frame (seqByte r.1) r.2).length) }, ?_, ?_⟩
  · rw [Transition.run, GoBackN.step, hacks]
    simp only [Option.bind_some, Transition.run_nil, Option.some.injEq]
    unfold GoBackN.State.acknowledge
    dsimp only
    rw [hinv.decode hmem, if_neg hbelieved]
  · exact { h with
      accounts := haccounts
      base := hreceive.symm
      next := by
        dsimp only
        rw [hsend, h.next]
      acks := rfl
      replies := rfl
      outstanding := by
        dsimp only
        rw [hsent, h.outstanding, ← List.map_drop, ← h.base, ← hinv.outstanding_drop hle.1]
        rfl
      finished := fun q hq => h.finished q (by
        rw [hreplies]
        exact List.mem_cons_of_mem r hq)
      notify := by
        dsimp only
        rw [hnotify, List.append_assoc, List.takeWhile_append_dropWhile, h.notify]
      received := by
        have hreceipts : notifications
            (SerialQueue.receipts s.host r.1 (frame (seqByte r.1) r.2)) =
            (s.host.notifyQueue.takeWhile
              (·.1 ≤ SerialQueue.wakeSeq r.1 (frame (seqByte r.1) r.2).length)).map
                (·.2.notifyId) := by
          rw [SerialQueue.receipts, notifications_append, notifications_map]
          split <;> simp [notifications]
        dsimp only
        rw [hreceived, ← List.append_assoc, notifications_append, h.received, hreceipts,
          List.map_append]
      woken := fun hone e he => by
        rcases List.mem_append.mp he with he | he
        · exact h.woken hone e he
        · have hwake := of_decide_eq_true (List.mem_takeWhile_imp
            (p := fun x : Nat × QueueMessage => decide
              (x.1 ≤ SerialQueue.wakeSeq r.1 (frame (seqByte r.1) r.2).length)) he)
          have hupto := wakeSeq_le (k := r.1) (by omega) r.2
          have hlast : v.last.toList.length ≤ 1 := by cases v.last <;> simp
          dsimp only
          by_cases hempty : r.2 = []
          · have hfinished := h.finished r (by rw [hreplies]; exact List.mem_cons_self) hempty
            rw [if_pos hempty] at hupto
            omega
          · rw [if_neg hempty] at hupto
            omega
      order := fun id => by
        dsimp only
        rw [hpending]
        exact h.order id }

/-- Messages that all come from one queue. -/
theorem ofQueue_map (id id' : Nat) (msgs : List QueueMessage) :
    ofQueue id (msgs.map fun qm => (id', qm)) = if id' = id then msgs else [] := by
  induction msgs with
  | nil => simp [ofQueue]
  | cons qm msgs ih =>
    have hcons : ofQueue id ((qm :: msgs).map fun qm => (id', qm)) =
        (if id' = id then [qm] else []) ++ ofQueue id (msgs.map fun qm => (id', qm)) := by
      by_cases hid : id' = id
      · simp [ofQueue, hid]
      · simp [ofQueue, hid]
    rw [hcons, ih]
    split <;> simp

/-- What an event puts into one queue. -/
theorem ofQueue_submission (id : Nat) (e : SerialQueue.Event) :
    ofQueue id (submission e) = e.submitted id := by
  cases e with
  | send id' msgs =>
    unfold submission SerialQueue.Event.submitted
    dsimp only
    by_cases hne : SerialQueue.bytes msgs ≠ 0
    · rw [if_pos hne, ofQueue_map]
      simp only [hne, ne_eq, not_false_eq_true, and_true]
    · simp [hne, ofQueue]
  | setReceiveWindow receiveWindow => rfl
  | input data => rfl
  | command clock => rfl
  | retransmit => rfl
  | kick => rfl
  | pull => rfl

/-- **The host sends new blocks**: the window sends them. -/
theorem Linked.build (h : Linked start s v) (hinv : GoBackN.Inv (config start) v.window)
    {host : SerialQueue} {blocks : List (Nat × List (Nat × QueueMessage))}
    (haccounts : Accounts host) (hbuilt : Built s.host host blocks) :
    Simulates start v { s with
      host, toMcu := s.toMcu ++ blocks.map block, built := s.built ++ blocks } := by
  have hnumbers := hbuilt.seqs
  rw [← h.next] at hnumbers
  have hwindow : v.window.next + blocks.length ≤ v.window.base + (config start).window := by
    have hsent := haccounts.sent
    have hpending := haccounts.pending
    rw [hbuilt.sendSeq, hbuilt.receiveSeq] at hsent
    have hw : (config start).window = MAX_PENDING_BLOCKS := rfl
    rw [h.base, h.next, hw]
    omega
  refine ⟨_, { v with
    window := { v.window with
      next := v.window.next + blocks.length
      sent := v.window.sent ++ blocks
      data := v.window.data ++ blocks } },
    GoBackN.run_sends hnumbers hwindow, ?_⟩
  exact { h with
    accounts := haccounts
    base := by
      dsimp only
      rw [hbuilt.receiveSeq, h.base]
    next := by
      dsimp only
      rw [hbuilt.sendSeq, h.next]
    sent := by
      dsimp only
      rw [h.sent]
    data := by
      dsimp only
      rw [h.data, List.map_append]
    outstanding := by
      have hall : blocks.filter (v.window.base ≤ ·.1) = blocks := by
        refine List.filter_eq_self.mpr fun x hx => decide_eq_true ?_
        have hmem : x.1 ∈ List.range' v.window.next blocks.length := by
          rw [← hnumbers]
          exact List.mem_map_of_mem hx
        exact hinv.base_le.trans (List.mem_range'_1.mp hmem).1
      dsimp only
      rw [hbuilt.sentQueue, h.outstanding, GoBackN.State.outstanding, GoBackN.State.outstanding,
        List.filter_append, hall, List.map_append]
    notify := by
      dsimp only
      rw [hbuilt.notifyQueue, ← List.append_assoc, h.notify, List.flatMap_append]
    received := by
      dsimp only
      rw [hbuilt.receiveQueue, h.received]
    order := fun id => by
      dsimp only
      rw [h.order id, hbuilt.order id, List.flatMap_append, SerialQueue.ofQueue_append,
        List.append_assoc] }

/-- The host sends what is outstanding once more. -/
theorem Linked.retransmit (h : Linked start s v)
    (haccounts : Accounts s.host.retransmitEvent.1) :
    Simulates start v { s with
      host := s.host.retransmitEvent.1, toMcu := s.toMcu ++ s.host.retransmitEvent.2 } := by
  refine ⟨[.resend], { v with
    window := { v.window with data := v.window.data ++ v.window.outstanding } }, rfl, ?_⟩
  exact { h with
    accounts := haccounts
    data := by
      dsimp only
      rw [h.data, List.map_append, ← h.outstanding]
      rfl }

/-- **Something happens at the host.** -/
theorem Linked.hostStep (h : Linked start s v) (hinv : GoBackN.Inv (config start) v.window)
    {e : SerialQueue.Event} (he : ∀ data, e ≠ .input data) {s' : System}
    (hstep : s.hostStep e = some s') : Simulates start v s' := by
  obtain ⟨host, hhost, rfl⟩ := Option.map_eq_some_iff.mp hstep
  obtain ⟨haccounts, horder⟩ := SerialQueue.step_spec h.accounts e hhost
  have horder' : ∀ id, ofQueue id (s.submitted ++ submission e) =
      ofQueue id ((s.built ++ e.blocks s.host).flatMap (·.2)) ++ queued id host.pendingQueues := by
    intro id
    rw [SerialQueue.ofQueue_append, h.order id, ofQueue_submission, List.append_assoc, horder id,
      List.flatMap_append, SerialQueue.ofQueue_append, List.append_assoc]
  -- events at which nothing is written
  have hquiet : written s.host e = [] → e.blocks s.host = [] →
      host.receiveSeq = s.host.receiveSeq → host.sendSeq = s.host.sendSeq →
      host.sentQueue = s.host.sentQueue → host.notifyQueue = s.host.notifyQueue →
      s.pulled ++ pulls s.host e ++ host.receiveQueue = s.pulled ++ s.host.receiveQueue →
      Simulates start v { s with
        host, toMcu := s.toMcu ++ written s.host e, built := s.built ++ e.blocks s.host,
        submitted := s.submitted ++ submission e, pulled := s.pulled ++ pulls s.host e } := by
    intro hwritten hblocks hbase hnext hsent hnotify hreceived
    rw [hblocks] at horder'
    rw [hwritten, hblocks]
    simp only [List.append_nil] at horder' ⊢
    exact ⟨[], v, rfl, h.host haccounts hbase hnext hsent hnotify hreceived horder'⟩
  cases e with
  | input data => exact absurd rfl (he data)
  | setReceiveWindow receiveWindow =>
    rw [SerialQueue.step, Option.some.injEq] at hhost
    subst hhost
    exact hquiet rfl rfl rfl rfl rfl rfl (by simp [pulls, SerialQueue.setReceiveWindow])
  | send id msgs =>
    rw [SerialQueue.step, Option.some.injEq] at hhost
    subst hhost
    obtain ⟨queues, upcoming, kick, heq⟩ : ∃ queues upcoming kick, (s.host.sendBatch id msgs).1 =
        { s.host with
          pendingQueues := queues, upcomingBytes := upcoming, needKickClock := kick } := by
      unfold SerialQueue.sendBatch
      dsimp only
      split
      · exact ⟨_, _, _, rfl⟩
      · exact ⟨_, _, _, rfl⟩
    rw [heq] at hquiet ⊢
    exact hquiet rfl rfl rfl rfl rfl rfl (by simp [pulls])
  | kick =>
    rw [SerialQueue.step, Option.some.injEq] at hhost
    subst hhost
    exact hquiet rfl rfl rfl rfl rfl rfl (by simp [pulls, SerialQueue.kickEvent])
  | pull =>
    rw [SerialQueue.step, Option.some.injEq] at hhost
    subst hhost
    refine hquiet rfl rfl rfl rfl rfl rfl ?_
    cases hqueue : s.host.receiveQueue with
    | nil => simp [pulls, SerialQueue.pull, hqueue]
    | cons r rest => simp [pulls, SerialQueue.pull, hqueue]
  | command clock =>
    rw [SerialQueue.step] at hhost
    split at hhost
    · cases hhost
    rw [Option.some.injEq] at hhost
    subst hhost
    obtain ⟨-, hbuilt, -⟩ := SerialQueue.commandEvent_spec clock h.accounts
    have hsim := h.build hinv haccounts hbuilt
    rw [← List.append_nil s.submitted, ← List.append_nil s.pulled] at hsim
    exact hsim
  | retransmit =>
    rw [SerialQueue.step] at hhost
    split at hhost
    · cases hhost
    rw [Option.some.injEq] at hhost
    subst hhost
    have hsim := h.retransmit haccounts
    rw [← List.append_nil s.built, ← List.append_nil s.submitted,
      ← List.append_nil s.pulled] at hsim
    exact hsim

end Steps

/-- **Every step of the system is some steps of the window.** -/
theorem step_simulates {start : Start} {s s' : System} {v : View} (h : Linked start s v)
    (hinv : GoBackN.Inv (config start) v.window) {e : Event} (hstep : step s e = some s') :
    Simulates start v s' := by
  have hidle : s.running = none → v.last = none := fun hnone => by
    rw [h.running] at hnone
    exact Option.map_eq_none_iff.mp hnone
  cases e with
  | host e =>
    have hinput : ∀ data, e ≠ .input data := by
      rintro data rfl
      cases hstep
    have hhost : s.hostStep e = some s' := by
      cases e with
      | input data => exact absurd rfl (hinput data)
      | setReceiveWindow => exact hstep
      | send => exact hstep
      | command => exact hstep
      | retransmit => exact hstep
      | kick => exact hstep
      | pull => exact hstep
    exact h.hostStep hinv hinput hhost
  | message =>
    rw [step] at hstep
    split at hstep
    · cases hstep
    next msg toHost hmsg =>
    rw [Option.some.injEq] at hstep
    exact hstep ▸ h.message hinv hmsg
  | block =>
    rw [step] at hstep
    split at hstep
    · next b toMcu hrunning hdata =>
      dsimp only at hstep
      split at hstep
      · next hseq =>
        rw [Option.some.injEq] at hstep
        exact hstep ▸ h.take hinv (hidle hrunning) hdata hseq
      · next hseq =>
        rw [Option.some.injEq] at hstep
        exact hstep ▸ h.refuse (hidle hrunning) hdata hseq
    · cases hstep
  | bad first =>
    rw [step] at hstep
    split at hstep
    · next hrunning =>
      rw [Option.some.injEq] at hstep
      exact hstep ▸ h.bad (hidle hrunning) first
    · cases hstep
  | shutdown =>
    rw [step] at hstep
    split at hstep
    · cases hstep
    · rw [Option.some.injEq] at hstep
      exact hstep ▸ h.shutdown _
  | finish =>
    rw [step] at hstep
    split at hstep
    · cases hstep
    next b hrunning =>
    rw [Option.some.injEq] at hstep
    exact hstep ▸ h.finish hrunning
  | reply payload =>
    rw [step] at hstep
    split at hstep
    · cases hstep
    next hpayload =>
    rw [Option.some.injEq] at hstep
    exact hstep ▸ h.send payload fun hempty => absurd (.inl hempty) hpayload
  | loseBlock i =>
    rw [step, Option.some.injEq] at hstep
    exact hstep ▸ h.loseBlock i
  | loseMessage i =>
    rw [step, Option.some.injEq] at hstep
    exact hstep ▸ h.loseMessage i

/-! ## Short runs -/

/-- The firmware expects a block with the bits of 2. -/
def two : Start := ⟨2, by norm_num, by norm_num⟩

/-- The host builds two blocks before it hears of the firmware. The first one is refused, the
second one is run; a command shuts the machine down. -/
def shortRun : List Event :=
  let send : Event := .host (.send 1 [SerialQueue.shortMessage])
  let command : Event := .host (.command fun _ => ⟨0, 0, false, 0⟩)
  [send, .host .kick, command, send, .host .kick, command, .block, .block, .shutdown, .finish,
    .message, .message]

/-- What the firmware has done then, and what the host knows. -/
theorem shortRun_dispatches : ∃ s, Transition.run step (initial two false false) shortRun = some s ∧
    (s.built.length, s.dispatched.length, s.halted, s.host.receiveSeq) = (2, 1, [0], 3) :=
  Option.map_eq_some_iff.mp (by decide +kernel)

/-- The block that the firmware would run is lost. -/
def lossRun : List Event :=
  let send : Event := .host (.send 1 [SerialQueue.shortMessage])
  let command : Event := .host (.command fun _ => ⟨0, 0, false, 0⟩)
  [send, .host .kick, command, send, .host .kick, command, .block, .loseBlock 0, .message]

/-- Nothing is under way then, but a block is without acknowledgment. -/
theorem lossRun_waits : ∃ s, Transition.run step (initial two false false) lossRun = some s ∧
    (s.toMcu, s.dispatched, s.host.sentQueue.length) = ([], [], 1) :=
  Option.map_eq_some_iff.mp (by decide +kernel)

/-! ## Every run -/

/-- What holds of the system in every run. -/
def Good (start : Start) (s : System) : Prop :=
  ∃ v, Linked start s v ∧ GoBackN.Inv (config start) v.window

/-- Every step keeps it. -/
theorem Good.step {start : Start} {s s' : System} (h : Good start s) {e : Event}
    (hstep : step s e = some s') : Good start s' := by
  obtain ⟨v, hlinked, hinv⟩ := h
  obtain ⟨events, v', hrun, hlinked'⟩ := step_simulates hlinked hinv hstep
  exact ⟨v', hlinked', Transition.run_invariant (fun _ _ _ h ht => h.step ht) hinv hrun⟩

/-- It holds in every state that is reached. -/
theorem good_run {start : Start} {needSync needValid : Bool} {s : System} {events : List Event}
    (hrun : Transition.run step (initial start needSync needValid) events = some s) :
    Good start s :=
  Transition.run_invariant (fun _ _ _ h ht => Good.step h ht)
    ⟨.initial start, linked_initial start needSync needValid, GoBackN.inv_initial (config start)⟩
    hrun

/-- **The blocks that were built** are those before the firmware's first number, those the firmware
is through with, the one that it is running, and the others. -/
theorem Linked.built {start : Start} {s : System} {v : View} (h : Linked start s v)
    (hinv : GoBackN.Inv (config start) v.window) :
    ∃ lost rest, s.built = lost ++ v.done ++ v.last.toList ++ rest ∧
      (∀ b ∈ lost, b.1 < start.number) ∧
      (∀ b ∈ v.done ++ v.last.toList, start.number ≤ b.1 ∧ b.1 < v.window.expected) ∧
      ∀ b ∈ rest, v.window.expected ≤ b.1 := by
  have hsplit := GoBackN.eq_append_between hinv.sorted hinv.start_le
  have hdelivered : GoBackN.between start.number v.window.expected v.window.sent =
      v.done ++ v.last.toList := hinv.delivered.symm.trans h.delivered
  refine ⟨v.window.sent.filter fun x => decide (x.1 < start.number),
    v.window.sent.filter fun x => decide (v.window.expected ≤ x.1), ?_,
    fun b hb => of_decide_eq_true (List.mem_filter.mp hb).2, fun b hb => ?_,
    fun b hb => of_decide_eq_true (List.mem_filter.mp hb).2⟩
  · rw [← h.sent, List.append_assoc _ v.done, ← hdelivered]
    exact hsplit
  · rw [← hdelivered] at hb
    exact (GoBackN.mem_between.mp hb).2

/-- **The firmware runs the blocks of the host in order, each once**: all but those before the
first number that it expects, and up to some that are under way. And of each queue it runs the
commands in the order in which they were put into it. -/
theorem blocks_in_order {start : Start} {needSync needValid : Bool} {s : System}
    {events : List Event}
    (hrun : Transition.run step (initial start needSync needValid) events = some s) :
    ∃ lost done rest, s.built = lost ++ done ++ rest ∧ (∀ b ∈ lost, b.1 < start.number) ∧
      (∀ b ∈ done ++ rest, start.number ≤ b.1) ∧ s.dispatched = done.map block ∧
      ∀ id, ofQueue id s.submitted = ofQueue id (lost.flatMap (·.2)) ++
        ofQueue id (done.flatMap (·.2)) ++ ofQueue id (rest.flatMap (·.2)) ++
          queued id s.host.pendingQueues := by
  obtain ⟨v, h, hinv⟩ := good_run hrun
  have hstart : start.number ≤ v.window.expected := hinv.start_le
  obtain ⟨lost, rest, hbuilt, hlost, hdone, hrest⟩ := h.built hinv
  rw [List.append_assoc _ v.last.toList] at hbuilt
  refine ⟨lost, v.done, v.last.toList ++ rest, hbuilt, hlost, fun b hb => ?_, h.dispatched,
    fun id => ?_⟩
  · rw [← List.append_assoc] at hb
    rcases List.mem_append.mp hb with hb | hb
    · exact (hdone b hb).1
    · exact hstart.trans (hrest b hb)
  · rw [h.order id, hbuilt, List.flatMap_append, List.flatMap_append, SerialQueue.ofQueue_append,
      SerialQueue.ofQueue_append]

/-- The first of two blocks is refused. -/
theorem blocks_in_order_short : ∃ s : System,
    (s.built.length, s.dispatched.length, s.halted, s.host.receiveSeq) = (2, 1, [0], 3) ∧
    ∃ lost done rest, s.built = lost ++ done ++ rest ∧ (∀ b ∈ lost, b.1 < two.number) ∧
      (∀ b ∈ done ++ rest, two.number ≤ b.1) ∧ s.dispatched = done.map block ∧
      ∀ id, ofQueue id s.submitted = ofQueue id (lost.flatMap (·.2)) ++
        ofQueue id (done.flatMap (·.2)) ++ ofQueue id (rest.flatMap (·.2)) ++
          queued id s.host.pendingQueues := by
  obtain ⟨s, hrun, hs⟩ := shortRun_dispatches
  exact ⟨s, hs, blocks_in_order hrun⟩

/-- The host believes the next message. -/
theorem Linked.believes {start : Start} {s : System} {v : View} (h : Linked start s v)
    (hinv : GoBackN.Inv (config start) v.window) :
    ∀ msg ∈ s.toHost.head?, ¬(s.host.receivedSeq msg > s.host.sendSeq ∧ s.host.receiveSeq ≠ 1) := by
  intro msg hmsg
  rw [h.replies] at hmsg
  cases hreplies : v.replies with
  | nil =>
    rw [hreplies] at hmsg
    cases hmsg
  | cons r replies =>
    rw [hreplies, List.map_cons, List.head?_cons, Option.mem_some_iff] at hmsg
    have hmem : r.1 ∈ v.window.acks := by
      rw [h.acks, hreplies]
      exact List.mem_cons_self
    have hseq : s.host.receivedSeq (frame (seqByte r.1) r.2) = r.1 := by
      rw [receivedSeq_frame, ← h.base]
      exact hinv.decode hmem
    rw [← hmsg, hseq, ← h.base, ← h.next]
    exact hinv.believed hmem

/-- **What was acknowledged was taken**, block by block, but for blocks before the first number that
the firmware expects: these it has refused. And the host believes every message. -/
theorem acknowledged_taken {start : Start} {needSync needValid : Bool} {s : System}
    {events : List Event}
    (hrun : Transition.run step (initial start needSync needValid) events = some s) :
    (∃ lost taken rest, s.built = lost ++ taken ++ rest ∧ (∀ b ∈ lost, b.1 < start.number) ∧
      (∀ b ∈ taken, start.number ≤ b.1) ∧
      s.dispatched ++ s.running.toList = taken.map block ∧
      ∀ b ∈ rest, s.host.receiveSeq ≤ b.1) ∧
    ∀ msg ∈ s.toHost.head?, ¬(s.host.receivedSeq msg > s.host.sendSeq ∧ s.host.receiveSeq ≠ 1) := by
  obtain ⟨v, h, hinv⟩ := good_run hrun
  obtain ⟨lost, rest, hbuilt, hlost, hdone, hrest⟩ := h.built hinv
  refine ⟨⟨lost, v.done ++ v.last.toList, rest, ?_, hlost, fun b hb => (hdone b hb).1, ?_,
    fun b hb => ?_⟩, h.believes hinv⟩
  · rw [hbuilt, ← List.append_assoc lost]
  · rw [h.dispatched, h.running, List.map_append]
    cases v.last <;> rfl
  · rw [← h.base]
    exact hinv.base_le_expected.trans (hrest b hb)

/-- Both blocks are acknowledged, the first of which was refused. -/
theorem acknowledged_taken_short : ∃ s : System,
    (s.built.length, s.dispatched.length, s.halted, s.host.receiveSeq) = (2, 1, [0], 3) ∧
    (∃ lost taken rest, s.built = lost ++ taken ++ rest ∧ (∀ b ∈ lost, b.1 < two.number) ∧
      (∀ b ∈ taken, two.number ≤ b.1) ∧
      s.dispatched ++ s.running.toList = taken.map block ∧
      ∀ b ∈ rest, s.host.receiveSeq ≤ b.1) ∧
    ∀ msg ∈ s.toHost.head?,
      ¬(s.host.receivedSeq msg > s.host.sendSeq ∧ s.host.receiveSeq ≠ 1) := by
  obtain ⟨s, hrun, hs⟩ := shortRun_dispatches
  exact ⟨s, hs, acknowledged_taken hrun⟩

/-- Messages that notify are in the block they name. -/
theorem fst_of_mem_notifying {b : Nat × Taken} {e : Nat × QueueMessage} (h : e ∈ notifying b) :
    e.1 = b.1 := by
  obtain ⟨m, -, rfl⟩ := List.mem_map.mp h
  rfl

/-- The firmware expects a block with the bits of 1, and sends a message before it is sent one. For
the host the block before the one before that message has the greatest number there is, and it
notifies of all. -/
theorem notified_early : ∃ s, Transition.run step (initial ⟨1, by norm_num, by norm_num⟩ false false)
    [.host (.send 1 [SerialQueue.shortMessage]), .host .kick,
      .host (.command fun _ => ⟨0, 0, false, 0⟩), .reply [5], .message] = some s ∧
    (s.built.length, s.dispatched, notifications s.host.receiveQueue) = (1, [], [7]) :=
  Option.map_eq_some_iff.mp (by decide +kernel)

/-! ## Nothing gets stuck -/

/-- A run leads from one state to the other in which no block is built. -/
def Reaches (s s' : System) : Prop :=
  (∃ events, Transition.run step s events = some s') ∧ s'.built = s.built

/-- Nothing has to happen. -/
theorem Reaches.refl (s : System) : Reaches s s := ⟨⟨[], rfl⟩, rfl⟩

/-- Two ways behind each other are one. -/
theorem Reaches.trans {s t u : System} (h : Reaches s t) (h' : Reaches t u) : Reaches s u := by
  obtain ⟨⟨as, has⟩, hst⟩ := h
  obtain ⟨⟨bs, hbs⟩, htu⟩ := h'
  exact ⟨⟨as ++ bs, Transition.run_append_eq_some.mpr ⟨t, has, hbs⟩⟩, htu.trans hst⟩

/-- A step on which nothing is built is a way. -/
theorem Reaches.one {s s' : System} {e : Event} (h : step s e = some s')
    (hbuilt : s'.built = s.built) : Reaches s s' :=
  ⟨⟨[e], Transition.run_cons_eq_some.mpr ⟨s', h, rfl⟩⟩, hbuilt⟩

/-- What holds in every run holds at its end. -/
theorem Reaches.good {start : Start} {s s' : System} (h : Reaches s s') (hs : Good start s) :
    Good start s' := by
  obtain ⟨⟨events, hrun⟩, -⟩ := h
  exact Transition.run_invariant (fun _ _ _ h ht => Good.step h ht) hs hrun

/-- The firmware finishes the block it is running. -/
theorem finishes (s : System) :
    ∃ s', Reaches s s' ∧ s'.running = none ∧ s'.host = s.host ∧ s'.toMcu = s.toMcu ∧
      s'.receiver = s.receiver := by
  cases hrunning : s.running with
  | none => exact ⟨s, .refl s, hrunning, rfl, rfl, rfl⟩
  | some b =>
    have hstep : step s .finish =
        some (System.send { s with running := none, dispatched := s.dispatched ++ [b] } []) := by
      rw [step, hrunning]
    exact ⟨_, .one hstep rfl, rfl, rfl, rfl, rfl⟩

/-- A block arrives, and is run or refused; then the firmware expects another one, and has told
the host. -/
theorem takes {s : System} (hrunning : s.running = none) {b : Bytes} {toMcu : List Bytes}
    (hdata : s.toMcu = b :: toMcu) :
    ∃ s', Reaches s s' ∧ s'.running = none ∧ s'.host = s.host ∧ s'.toMcu = toMcu ∧
      s'.toHost = s.toHost ++ [frame s'.receiver.nextSequence []] ∧
      (b.getD MESSAGE_POS_SEQ 0 = s.receiver.nextSequence →
        s'.receiver.nextSequence = following s.receiver.nextSequence) ∧
      (b.getD MESSAGE_POS_SEQ 0 ≠ s.receiver.nextSequence →
        s'.receiver.nextSequence = s.receiver.nextSequence) := by
  by_cases hseq : b.getD MESSAGE_POS_SEQ 0 = s.receiver.nextSequence
  · have hstep : step s .block = some { s with
        receiver := (handle s.receiver (.frame b)).1, toMcu, running := some b } := by
      rw [step, hrunning, hdata]
      simp only [hseq, if_true]
    have hfinish : step { s with
        receiver := (handle s.receiver (.frame b)).1, toMcu, running := some b } .finish =
        some (System.send { s with
          receiver := (handle s.receiver (.frame b)).1, toMcu, running := none
          dispatched := s.dispatched ++ [b] } []) := rfl
    refine ⟨_, (Reaches.one hstep rfl).trans (.one hfinish rfl), rfl, rfl, rfl, rfl, fun _ => ?_,
      fun hne => absurd hseq hne⟩
    simp only [System.send, handle, hseq, ne_eq, not_true_eq_false, if_false]
  · have hstep : step s .block = some (System.send { s with
        receiver := (handle s.receiver (.frame b)).1, toMcu } []) := by
      rw [step, hrunning, hdata]
      simp only [hseq, if_false]
    have hsame : (handle s.receiver (.frame b)).1.nextSequence = s.receiver.nextSequence := by
      simp only [handle, hseq, ne_eq, not_false_eq_true, if_true]
    exact ⟨_, .one hstep rfl, hrunning, rfl, rfl, rfl, fun heq => absurd heq hseq, fun _ => hsame⟩

/-- All blocks that are under way arrive. -/
theorem takes_all (toMcu : List Bytes) {s : System} (hrunning : s.running = none)
    (hdata : s.toMcu = toMcu) :
    ∃ s', Reaches s s' ∧ s'.running = none ∧ s'.host = s.host ∧ s'.toMcu = [] := by
  induction toMcu generalizing s with
  | nil => exact ⟨s, .refl s, hrunning, rfl, hdata⟩
  | cons b toMcu ih =>
    obtain ⟨t, ht, hidle, hhost, hrest, -⟩ := takes hrunning hdata
    obtain ⟨u, hu, hidle', hhost', hnil⟩ := ih hidle hrest
    exact ⟨u, ht.trans hu, hidle', hhost'.trans hhost, hnil⟩

/-- A message arrives at the host. -/
theorem hears {start : Start} {s : System} (h : Good start s) {msg : Bytes} {toHost : List Bytes}
    (hmsg : s.toHost = msg :: toHost) :
    ∃ s', Reaches s s' ∧ s'.running = s.running ∧ s'.toMcu = s.toMcu ∧ s'.toHost = toHost ∧
      s'.host.sentQueue = s.host.sentQueue.drop (s.host.receivedSeq msg - s.host.receiveSeq) := by
  obtain ⟨v, hlinked, hinv⟩ := h
  have hstep : step s .message = some { s with host := s.host.handleMessage msg, toHost } := by
    rw [step, hmsg]
  refine ⟨_, .one hstep rfl, rfl, rfl, rfl, ?_⟩
  obtain ⟨-, -, -, ⟨hfar, hfirst, -⟩ | ⟨-, -, -, hsent, -⟩⟩ :=
    SerialQueue.handleMessage_spec hlinked.accounts msg
  · exact (hlinked.believes hinv msg (by simp [hmsg]) ⟨hfar, hfirst⟩).elim
  · exact hsent

/-- All messages that are under way arrive. -/
theorem hears_all (toHost : List Bytes) {start : Start} {s : System} (h : Good start s)
    (hmsg : s.toHost = toHost) :
    ∃ s', Reaches s s' ∧ s'.running = s.running ∧ s'.toMcu = s.toMcu ∧ s'.toHost = [] ∧
      s'.host.sentQueue.length ≤ s.host.sentQueue.length := by
  induction toHost generalizing s with
  | nil => exact ⟨s, .refl s, rfl, rfl, hmsg, le_rfl⟩
  | cons msg toHost ih =>
    obtain ⟨t, ht, hrunning, hdata, hrest, hsent⟩ := hears h hmsg
    obtain ⟨u, hu, hrunning', hdata', hnil, hle⟩ := ih (ht.good h) hrest
    refine ⟨u, ht.trans hu, hrunning'.trans hrunning, hdata'.trans hdata, hnil, hle.trans ?_⟩
    rw [hsent, List.length_drop]
    omega

/-- Nothing is under way. -/
def Clear (s : System) : Prop := s.running = none ∧ s.toMcu = [] ∧ s.toHost = []

/-- **Everything under way arrives**, and then there is nothing left on the line. -/
theorem clears {start : Start} {s : System} (h : Good start s) :
    ∃ s', Reaches s s' ∧ Clear s' ∧ s'.host.sentQueue.length ≤ s.host.sentQueue.length := by
  obtain ⟨t, ht, hidle, hhost, -⟩ := finishes s
  obtain ⟨u, hu, hidle', hhost', hnil⟩ := takes_all t.toMcu hidle rfl
  have htu := ht.trans hu
  obtain ⟨w, hw, hrunning, hdata, hheard, hle⟩ := hears_all u.toHost (htu.good h) rfl
  refine ⟨w, htu.trans hw, ⟨hrunning.trans hidle', hdata.trans hnil, hheard⟩, ?_⟩
  rwa [hhost', hhost] at hle

/-- The timer goes off. -/
theorem resends {s : System} (h : s.host.retransmitTimer ≠ .never) :
    ∃ s', Reaches s s' ∧ s'.host = s.host.retransmitEvent.1 ∧ s'.running = s.running ∧
      s'.receiver = s.receiver ∧ s'.toMcu = s.toMcu ++ s.host.sentQueue ∧
      s'.toHost = s.toHost := by
  have hhost : s.host.step .retransmit = some s.host.retransmitEvent.1 := by
    rw [SerialQueue.step, if_neg h]
  have hstep : step s (.host .retransmit) = some { s with
      host := s.host.retransmitEvent.1
      toMcu := s.toMcu ++ s.host.sentQueue
      built := s.built ++ []
      submitted := s.submitted ++ []
      pulled := s.pulled ++ [] } := by
    have hstep' : step s (.host .retransmit) = s.hostStep .retransmit := rfl
    rw [hstep', System.hostStep, hhost]
    rfl
  exact ⟨_, .one hstep (List.append_nil _), rfl, rfl, rfl, rfl, rfl⟩

/-- With nothing under way, the blocks are sent again; the answer to the first of them tells the
host that the firmware expects another one. -/
theorem advances {start : Start} {s : System} (h : Good start s) (hclear : Clear s)
    (hsent : s.host.sentQueue ≠ []) :
    ∃ s', Reaches s s' ∧ Clear s' ∧
      s'.host.sentQueue.length < s.host.sentQueue.length := by
  obtain ⟨hidle, hdata, hreplies⟩ := hclear
  obtain ⟨v, hlinked, hinv⟩ := h
  -- the timer is set, and the first block has the number the host waits for
  have htimer : s.host.retransmitTimer ≠ .never := fun hnever =>
    hsent (hlinked.accounts.timer.mp hnever)
  obtain ⟨x, rest, hout⟩ : ∃ x rest, v.window.outstanding = x :: rest := by
    refine List.exists_cons_of_ne_nil fun hnil => hsent ?_
    rw [hlinked.outstanding, hnil]
    rfl
  have hx : x.1 = s.host.receiveSeq := by
    have hrange := hinv.outstanding
    have hne : v.window.next - v.window.base ≠ 0 := fun hzero => by
      rw [hout, hzero] at hrange
      cases hrange
    obtain ⟨n, hn⟩ := Nat.exists_eq_succ_of_ne_zero hne
    rw [hout, hn, List.map_cons, List.range'_succ, List.cons.injEq] at hrange
    exact hrange.1.trans hlinked.base
  obtain ⟨r, hr, hsame, hrunning, hreceiver, hresent, htoHost⟩ := resends htimer
  have hfirst : r.toMcu = block x :: rest.map block := by
    rw [hresent, hdata, List.nil_append, hlinked.outstanding, hout, List.map_cons]
  obtain ⟨t, ht, hidle', hhost, -, htold, htaken, hrefused⟩ := takes (hrunning.trans hidle) hfirst
  have hst := hr.trans ht
  -- what the firmware answers
  have hgood := hst.good ⟨v, hlinked, hinv⟩
  obtain ⟨w, hlinked', hinv'⟩ := id hgood
  have hbase : w.window.base = s.host.receiveSeq := by
    rw [hlinked'.base, hhost, hsame]
    rfl
  have hle := hinv'.base_le_expected
  have hlt := hinv'.expected_lt
  have hmoved : w.window.expected ≠ s.host.receiveSeq := by
    intro hsame
    have hnext := hlinked'.expected
    rw [getD_block, hx] at htaken hrefused
    rw [hsame] at hnext
    by_cases hseq : seqByte s.host.receiveSeq = r.receiver.nextSequence
    · have hfollowing := htaken hseq
      rw [hnext, ← hseq, following_seqByte, seqByte_eq_iff] at hfollowing
      omega
    · exact hseq (hnext.symm.trans (hrefused hseq))
  have hheard : t.host.receivedSeq (frame t.receiver.nextSequence []) = w.window.expected := by
    rw [hlinked'.expected, receivedSeq_frame, ← hlinked'.base]
    exact GoBackN.decode_eq hle hlt
  rw [htoHost, hreplies, List.nil_append] at htold
  obtain ⟨u, hu, -, -, -, hdrop⟩ := hears hgood htold
  obtain ⟨s', hs', hclear', hshort⟩ := clears (hu.good hgood)
  refine ⟨s', (hst.trans hu).trans hs', hclear', lt_of_le_of_lt hshort ?_⟩
  have hqueue : t.host.sentQueue = s.host.sentQueue := by
    rw [hhost, hsame]
    rfl
  have hpos := List.length_pos_iff.mpr hsent
  rw [hdrop, hheard, ← hlinked'.base, hqueue, List.length_drop]
  omega

/-- As long as there are blocks without acknowledgment, there will be fewer. -/
theorem settles (n : Nat) {start : Start} {s : System} (h : Good start s) (hclear : Clear s)
    (hn : s.host.sentQueue.length ≤ n) :
    ∃ s', Reaches s s' ∧ Clear s' ∧ s'.host.sentQueue = [] := by
  induction n generalizing s with
  | zero => exact ⟨s, .refl s, hclear, List.length_eq_zero_iff.mp (Nat.le_zero.mp hn)⟩
  | succ n ih =>
    by_cases hsent : s.host.sentQueue = []
    · exact ⟨s, .refl s, hclear, hsent⟩
    · obtain ⟨t, ht, hclear', hlt⟩ := advances h hclear hsent
      obtain ⟨u, hu, hclear'', hnil⟩ := ih (ht.good h) hclear' (by omega)
      exact ⟨u, ht.trans hu, hclear'', hnil⟩

/-- With everything acknowledged, the firmware has run all that was built since the host has known
its numbers. -/
theorem Good.all_dispatched {start : Start} {s : System} (h : Good start s) (hidle : s.running = none)
    (hsent : s.host.sentQueue = []) :
    s.dispatched = (s.built.filter (start.number ≤ ·.1)).map block := by
  obtain ⟨v, hlinked, hinv⟩ := h
  have hnone : v.last = none := by
    rw [hlinked.running] at hidle
    exact Option.map_eq_none_iff.mp hidle
  have hclosed : v.window.next ≤ v.window.base := by
    have hout : v.window.outstanding = [] := by
      have hmap := hlinked.outstanding
      rw [hsent] at hmap
      exact List.map_eq_nil_iff.mp hmap.symm
    have hlen := congrArg List.length hinv.outstanding
    rw [hout, List.length_map, List.length_range', List.length_nil] at hlen
    omega
  have hbase := hinv.base_le_expected
  have hall : GoBackN.between start.number v.window.expected v.window.sent =
      v.window.sent.filter (start.number ≤ ·.1) := by
    refine List.filter_congr fun x hx => ?_
    have hlt := (hinv.sent_lt x hx).2
    have hexpected : x.1 < v.window.expected := by omega
    simp [hexpected]
  have hdone := hlinked.delivered
  rw [hnone, Option.toList_none, List.append_nil] at hdone
  rw [hlinked.dispatched, ← hdone, hinv.delivered, ← hlinked.sent]
  exact congrArg (List.map block) hall

/-- **Whatever was lost, nothing is stuck**: from every state there is a way on which no block is
built, and at its end everything is acknowledged, and run, each block once. -/
theorem recovers {start : Start} {needSync needValid : Bool} {s : System} {events : List Event}
    (hrun : Transition.run step (initial start needSync needValid) events = some s) :
    ∃ more s', Transition.run step s more = some s' ∧ s'.built = s.built ∧ Clear s' ∧
      s'.host.sentQueue = [] ∧ s'.dispatched = (s.built.filter (start.number ≤ ·.1)).map block := by
  have hgood := good_run hrun
  obtain ⟨t, ht, hclear, -⟩ := clears hgood
  obtain ⟨u, hu, hclear', hnil⟩ := settles t.host.sentQueue.length (ht.good hgood) hclear le_rfl
  have htu := ht.trans hu
  obtain ⟨⟨more, hmore⟩, hbuilt⟩ := htu
  have hall := (hu.good (ht.good hgood)).all_dispatched hclear'.1 hnil
  exact ⟨more, u, hmore, hbuilt, hclear', hnil, hbuilt ▸ hall⟩

/-- The block that was lost is sent again. -/
theorem recovers_loss : ∃ s : System,
    (s.toMcu, s.dispatched, s.host.sentQueue.length) = ([], [], 1) ∧
    ∃ more s', Transition.run step s more = some s' ∧ s'.built = s.built ∧ Clear s' ∧
      s'.host.sentQueue = [] ∧ s'.dispatched = (s.built.filter (two.number ≤ ·.1)).map block := by
  obtain ⟨s, hrun, hs⟩ := lossRun_waits
  exact ⟨s, hs, recovers hrun⟩

end Cream.Analysis.SerialDelivery
