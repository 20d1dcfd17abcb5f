import Cream.Model.Msgblock

/-!
# The serial queue of the host

`chelper/serialqueue.c`: queues of commands, the blocks they are sent in, and the blocks that are
kept until the micro-controller has acknowledged them. What the clocks of the machine say is an
argument (`Clock`); times decide when something is done, so of a timer only whether it is set is
kept.

SOURCE: src/app/src/main/klipper/klippy/chelper/serialqueue.c:159-609, 779-897
-/

set_option autoImplicit false

namespace Cream.Model

open Cream.Library PercentCoding Msgblock

def MAX_PENDING_BLOCKS : Nat := 12
def MAX_CLOCK : Nat := 0x7fffffffffffffff
def BACKGROUND_PRIORITY_CLOCK : Nat := 0x7fffffff00000000

/-- A command in a queue; the buffer of a `queue_message` and the clocks of its callers have these
bounds. -/
structure QueueMessage where
  msg : Bytes
  minClock : Nat
  reqClock : Nat
  /-- 0 for none -/
  notifyId : Nat
  fits : msg.length ≤ MESSAGE_PAYLOAD_MAX
  clocked : reqClock < MAX_CLOCK
deriving DecidableEq

structure CommandQueue where
  /-- which queue this is -/
  id : Nat
  upcomingQueue : List QueueMessage
  readyQueue : List QueueMessage
deriving DecidableEq

/-- An entry of `receive_queue`. -/
inductive Received where
  /-- the message with this notification was received by the micro-controller -/
  | notified (notifyId : Nat)
  | message (msg : Bytes)
deriving DecidableEq

inductive Timer where
  | never
  | now
  | at
deriving DecidableEq

/-- `struct serialqueue` -/
structure SerialQueue where
  inputBuf : Bytes
  needSync : Bool
  receiveWindow : Nat
  sendSeq : Nat
  receiveSeq : Nat
  ignoreNakSeq : Nat
  lastAckSeq : Nat
  retransmitSeq : Nat
  sentQueue : List Bytes
  /-- the queues that have messages -/
  pendingQueues : List CommandQueue
  readyBytes : Int
  upcomingBytes : Int
  needAckBytes : Int
  lastAckBytes : Int
  needKickClock : Nat
  /-- messages with the number of the block that they are in -/
  notifyQueue : List (Nat × QueueMessage)
  receiveQueue : List Received
  retransmitTimer : Timer
  commandTimer : Timer
deriving DecidableEq

namespace SerialQueue

/-- `serialqueue_alloc`, for a serial port. -/
def alloc : SerialQueue where
  inputBuf := []
  needSync := false
  receiveWindow := 0
  sendSeq := 1
  receiveSeq := 1
  ignoreNakSeq := 0
  lastAckSeq := 0
  retransmitSeq := 0
  sentQueue := []
  pendingQueues := []
  readyBytes := 0
  upcomingBytes := 0
  needAckBytes := 0
  lastAckBytes := 0
  needKickClock := MAX_CLOCK
  notifyQueue := []
  receiveQueue := []
  retransmitTimer := .never
  commandTimer := .never

/-! ## Receiving -/

/-- The loop of `update_receive_seq`. -/
def removeSent (rseq : Nat) : List Bytes → Nat → SerialQueue → SerialQueue
  -- an ack for a message that was not sent; must be connection init
  | [], _, sq => { sq with sentQueue := [], sendSeq := rseq }
  | sent :: sentQueue, sentSeq, sq =>
    let sq := { sq with sentQueue, needAckBytes := sq.needAckBytes - sent.length }
    if rseq = sentSeq + 1 then { sq with lastAckBytes := sent.length }
    else removeSent rseq sentQueue (sentSeq + 1) sq

/-- `update_receive_seq` -/
def updateReceiveSeq (rseq : Nat) (sq : SerialQueue) : SerialQueue :=
  let sq := removeSent rseq sq.sentQueue sq.receiveSeq sq
  { sq with
    receiveSeq := rseq
    commandTimer := .now
    retransmitTimer := if sq.sentQueue = [] then .never else .at }

/-- The sequence number that is meant by the one in a message. -/
def receivedSeq (sq : SerialQueue) (msg : Bytes) : Nat :=
  sq.receiveSeq + ((msg.getD MESSAGE_POS_SEQ 0).toNat + (16 - sq.receiveSeq % 16)) % 16

/-- `wake_seq`, in 64 bits. -/
def wakeSeq (rseq len : Nat) : Nat :=
  (((rseq : Int) - 1 - (if len > MESSAGE_MIN then 1 else 0)) % 2 ^ 64).toNat

/-- The loop over `notify_queue`. -/
def wake (wakeSeq : Nat) (sq : SerialQueue) : SerialQueue :=
  { sq with
    notifyQueue := sq.notifyQueue.dropWhile (·.1 ≤ wakeSeq)
    receiveQueue := sq.receiveQueue ++
      (sq.notifyQueue.takeWhile (·.1 ≤ wakeSeq)).map (.notified ·.2.notifyId) }

/-- `handle_message` -/
def handleMessage (msg : Bytes) (sq : SerialQueue) : SerialQueue :=
  let rseq := sq.receivedSeq msg
  if rseq ≠ sq.receiveSeq ∧ rseq > sq.sendSeq ∧ sq.receiveSeq ≠ 1 then sq
  else
    let sq := if rseq ≠ sq.receiveSeq then sq.updateReceiveSeq rseq else sq
    let sq := sq.wake (wakeSeq rseq msg.length)
    if msg.length = MESSAGE_MIN then
      if sq.lastAckSeq < rseq then { sq with lastAckSeq := rseq }
      else if rseq > sq.ignoreNakSeq ∧ sq.sentQueue ≠ [] then { sq with retransmitTimer := .now }
      else sq
    else { sq with receiveQueue := sq.receiveQueue ++ [.message msg] }

/-- The loop of `input_event`; every round takes one byte at least. -/
def inputLoop : Nat → SerialQueue → SerialQueue
  | 0, sq => sq
  | fuel + 1, sq =>
    let checked := msgblockCheck sq.needSync sq.inputBuf
    let sq := { sq with needSync := checked.1 }
    if checked.2 = 0 then sq
    else
      let sq := if checked.2 > 0 then sq.handleMessage (sq.inputBuf.take checked.2.toNat) else sq
      inputLoop fuel { sq with inputBuf := sq.inputBuf.drop checked.2.natAbs }

/-- `input_event`; the bytes are those that `read` has put behind the others. -/
def inputEvent (data : Bytes) (sq : SerialQueue) : SerialQueue :=
  let sq := { sq with inputBuf := sq.inputBuf ++ data }
  inputLoop (sq.inputBuf.length + 1) sq

/-- `serialqueue_pull`, when there is something. -/
def pull (sq : SerialQueue) : SerialQueue := { sq with receiveQueue := sq.receiveQueue.tail }

/-! ## Sending -/

/-- `retransmit_event`: what is written behind a synchronisation byte. -/
def retransmitEvent (sq : SerialQueue) : SerialQueue × List Bytes :=
  ({ sq with
      ignoreNakSeq :=
        if sq.retransmitTimer = .now then
          if sq.receiveSeq < sq.retransmitSeq then sq.retransmitSeq else sq.receiveSeq
        else sq.sendSeq
      retransmitSeq := sq.sendSeq
      retransmitTimer := .at },
    sq.sentQueue)

/-- A round of the search in `build_and_send_command`; of messages with the same `req_clock` the
first one stays. -/
def lower (best : Nat × Option (CommandQueue × QueueMessage)) (q : CommandQueue) :
    Nat × Option (CommandQueue × QueueMessage) :=
  match q.readyQueue with
  | [] => best
  | m :: _ => if m.reqClock < best.1 then (m.reqClock, some (q, m)) else best

/-- The message with the lowest `req_clock`, and its queue. -/
def highestPriority (pendingQueues : List CommandQueue) : Option (CommandQueue × QueueMessage) :=
  (pendingQueues.foldl lower (MAX_CLOCK, none)).2

/-- The message is taken from its queue, and the queue from the list when it is empty. -/
def takeReady (id : Nat) (pendingQueues : List CommandQueue) : List CommandQueue :=
  pendingQueues.filterMap fun q =>
    if q.id = id then
      if q.readyQueue.tail = [] ∧ q.upcomingQueue = [] then none
      else some { q with readyQueue := q.readyQueue.tail }
    else some q

/-- A message is put into the block; one that requires a notification goes to the notify list. -/
def takeMessage (cq : CommandQueue) (qm : QueueMessage) (sq : SerialQueue) : SerialQueue :=
  { sq with
    pendingQueues := takeReady cq.id sq.pendingQueues
    readyBytes := sq.readyBytes - qm.msg.length
    notifyQueue := sq.notifyQueue ++ if qm.notifyId ≠ 0 then [(sq.sendSeq, qm)] else [] }

/-- The loop of `build_and_send_command`, with the messages that are put into the block and the
queues they come from. -/
def fillBlock : Nat → SerialQueue → Nat → SerialQueue × List (Nat × QueueMessage)
  | 0, sq, _ => (sq, [])
  | fuel + 1, sq, len =>
    if sq.readyBytes = 0 then (sq, [])
    else
      match highestPriority sq.pendingQueues with
      | none => (sq, [])
      | some (cq, qm) =>
        if len + qm.msg.length > MESSAGE_MAX - MESSAGE_TRAILER_SIZE then (sq, [])
        else
          let filled := fillBlock fuel (sq.takeMessage cq qm) (len + qm.msg.length)
          (filled.1, (cq.id, qm) :: filled.2)

/-- How many messages are ready; no block takes more. -/
def readyCount (sq : SerialQueue) : Nat := (sq.pendingQueues.map (·.readyQueue.length)).sum

/-- `MESSAGE_DEST | (sq->send_seq & MESSAGE_SEQ_MASK)` -/
def seqByte (seq : Nat) : UInt8 := MESSAGE_DEST ||| UInt8.ofNat (seq % 16)

/-- The bytes of some messages. -/
def payload (taken : List (Nat × QueueMessage)) : Bytes := taken.flatMap (·.2.msg)

/-- `build_and_send_command`, with the messages in the block. -/
def buildAndSendCommand (sq : SerialQueue) : SerialQueue × List (Nat × QueueMessage) :=
  let filled := fillBlock sq.readyCount sq MESSAGE_HEADER_SIZE
  let out := frame (seqByte sq.sendSeq) (payload filled.2)
  ({ filled.1 with
      retransmitTimer := if sq.sentQueue = [] then .at else sq.retransmitTimer
      sendSeq := sq.sendSeq + 1
      needAckBytes := sq.needAckBytes + out.length
      sentQueue := sq.sentQueue ++ [out] },
    filled.2)

/-- What the clock estimate says when it is asked what to send. -/
structure Clock where
  /-- `ack_clock` -/
  ackClock : Nat
  /-- `req_clock` of a message in the background -/
  bgClock : Nat
  /-- `est_freq` is known -/
  estimated : Bool
  /-- `reqclock_delta` -/
  reqclockDelta : Nat

/-- Whether the window is closed: an ack is needed before more messages can be sent. -/
def waitsForAck (sq : SerialQueue) : Prop :=
  sq.sendSeq - sq.receiveSeq ≥ MAX_PENDING_BLOCKS ∨
  (sq.sendSeq > sq.receiveSeq ∧ sq.receiveWindow ≠ 0 ∧
    sq.needAckBytes + MESSAGE_MAX + (if sq.lastAckSeq < sq.receiveSeq then sq.lastAckBytes else 0) >
      sq.receiveWindow)

instance (sq : SerialQueue) : Decidable sq.waitsForAck := inferInstanceAs (Decidable (_ ∨ _))

/-- Messages move from `upcoming_queue` to `ready_queue`. -/
def becomeReady (ackClock : Nat) (cq : CommandQueue) : CommandQueue :=
  { cq with
    upcomingQueue := cq.upcomingQueue.dropWhile (·.minClock ≤ ackClock)
    readyQueue := cq.readyQueue ++ cq.upcomingQueue.takeWhile (·.minClock ≤ ackClock) }

/-- The bytes that move. -/
def movedBytes (ackClock : Nat) (cq : CommandQueue) : Nat :=
  ((cq.upcomingQueue.takeWhile (·.minClock ≤ ackClock)).map (·.msg.length)).sum

/-- `min_stalled_clock` -/
def minStalledClock (pendingQueues : List CommandQueue) : Nat :=
  pendingQueues.foldl (fun c cq => (cq.upcomingQueue.head?.elim c fun qm => min c qm.minClock))
    MAX_CLOCK

/-- `min_ready_clock` -/
def minReadyClock (clock : Clock) (pendingQueues : List CommandQueue) : Nat :=
  pendingQueues.foldl (fun c cq => cq.readyQueue.head?.elim c fun qm =>
    min c (if qm.reqClock = BACKGROUND_PRIORITY_CLOCK then clock.bgClock else qm.reqClock))
    MAX_CLOCK

/-- `check_send_command`, and when the next data should be sent. -/
def checkSendCommand (clock : Clock) (sq : SerialQueue) : SerialQueue × Timer :=
  if sq.waitsForAck then (sq, .never)
  else
    let moved := (sq.pendingQueues.map (movedBytes clock.ackClock)).sum
    let sq := { sq with
      pendingQueues := sq.pendingQueues.map (becomeReady clock.ackClock)
      upcomingBytes := sq.upcomingBytes - moved
      readyBytes := sq.readyBytes + moved }
    let minReady := minReadyClock clock sq.pendingQueues
    if sq.readyBytes ≥ (MESSAGE_PAYLOAD_MAX : Int) then (sq, .now)
    else if clock.estimated = false then
      if sq.readyBytes ≠ 0 then (sq, .now)
      else ({ sq with needKickClock := MAX_CLOCK }, .never)
    else if minReady ≤ clock.ackClock + clock.reqclockDelta then (sq, .now)
    else
      let wantclock := min (minReady - clock.reqclockDelta) (minStalledClock sq.pendingQueues)
      ({ sq with needKickClock := wantclock }, .at)

/-- The loop of `command_event`, with the blocks that are built and written. -/
def commandLoop : List Clock → SerialQueue → SerialQueue × List (Nat × List (Nat × QueueMessage))
  | [], sq => (sq, [])
  | clock :: clocks, sq =>
    let checked := sq.checkSendCommand clock
    if checked.2 ≠ .now then ({ checked.1 with commandTimer := checked.2 }, [])
    else
      let built := checked.1.buildAndSendCommand
      let rest := commandLoop clocks built.1
      (rest.1, (sq.sendSeq, built.2) :: rest.2)

/-- `command_event`, with what the clock estimate says in every round. A round in which a block is
built makes the window smaller, so the last of the rounds finds it closed. -/
def commandEvent (clock : Nat → Clock) (sq : SerialQueue) :
    SerialQueue × List (Nat × List (Nat × QueueMessage)) :=
  commandLoop ((List.range (MAX_PENDING_BLOCKS + 1)).map clock) sq

/-- `kick_event` -/
def kickEvent (sq : SerialQueue) : SerialQueue := { sq with commandTimer := .now }

/-- `min_clock` is not more than 2^31 ticks before `req_clock`. -/
def adjustMinClock (qm : QueueMessage) : QueueMessage :=
  if qm.minClock + 2 ^ 31 < qm.reqClock ∧ qm.reqClock ≠ BACKGROUND_PRIORITY_CLOCK then
    { qm with minClock := qm.reqClock - 2 ^ 31 }
  else qm

/-- Messages are put behind the others of their queue. -/
def joinUpcoming (id : Nat) (msgs : List QueueMessage) (pendingQueues : List CommandQueue) :
    List CommandQueue :=
  if pendingQueues.any (·.id = id) then
    pendingQueues.map fun cq =>
      if cq.id = id then { cq with upcomingQueue := cq.upcomingQueue ++ msgs } else cq
  else pendingQueues ++ [⟨id, msgs, []⟩]

/-- `serialqueue_send_batch`, and whether the background thread is to be woken. -/
def sendBatch (id : Nat) (msgs : List QueueMessage) (sq : SerialQueue) : SerialQueue × Bool :=
  let msgs := msgs.map adjustMinClock
  let len : Nat := (msgs.map (·.msg.length)).sum
  if len = 0 then (sq, false)
  else
    let mustwake := msgs.head?.any (·.minClock < sq.needKickClock)
    ({ sq with
        pendingQueues := joinUpcoming id msgs sq.pendingQueues
        upcomingBytes := sq.upcomingBytes + len
        needKickClock := if mustwake then 0 else sq.needKickClock },
      mustwake)

/-- `serialqueue_set_receive_window` -/
def setReceiveWindow (receiveWindow : Nat) (sq : SerialQueue) : SerialQueue :=
  { sq with receiveWindow }

/-! ## What can happen -/

/-- A callback of the background thread, or a call from another one. -/
inductive Event where
  | setReceiveWindow (receiveWindow : Nat)
  | send (id : Nat) (msgs : List QueueMessage)
  | input (data : Bytes)
  | command (clock : Nat → Clock)
  | retransmit
  | kick
  | pull

/-- A timer that is set may go off at any time. -/
def step (sq : SerialQueue) : Event → Option SerialQueue
  | .setReceiveWindow receiveWindow => some (sq.setReceiveWindow receiveWindow)
  | .send id msgs => some (sq.sendBatch id msgs).1
  | .input data => some (sq.inputEvent data)
  | .command clock => if sq.commandTimer = .never then none else some (sq.commandEvent clock).1
  | .retransmit => if sq.retransmitTimer = .never then none else some sq.retransmitEvent.1
  | .kick => some sq.kickEvent
  | .pull => some sq.pull

end SerialQueue

end Cream.Model
