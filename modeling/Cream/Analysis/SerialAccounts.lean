import Cream.Analysis.BlockChecksum
import Cream.Library.Transition
import Cream.Model.SerialQueue

/-!
# The books of the serial queue

The serial queue keeps counts of what is in its lists, and decides by the counts: whether there is
anything to send, whether the micro-controller has room for it. Whatever the other end of the line
sends, and whenever the timers go off, the counts are right, no more blocks are without
acknowledgment than may be, the retransmission timer is set just while there are any, and from the
first block on that is built under a receive window no more bytes are under way than that window
lets (`accounts_run`). Of each queue the messages go into blocks in the order in which they came
(`queue_order`), and none does before its time (`none_early`).

SOURCE: src/app/src/main/klipper/klippy/chelper/serialqueue.c:159-609, 779-812, 841-897
(`update_receive_seq`, `handle_message`, `input_event`, `retransmit_event`,
`build_and_send_command`, `check_send_command`, `command_event`, `serialqueue_send_batch`,
`serialqueue_pull`, `serialqueue_set_receive_window`)
SOURCE: src/app/src/main/klipper/klippy/serialhdl.py:99-111 (the receive window is set when the
firmware has been asked for its constants)
-/

set_option autoImplicit false

namespace Cream.Model.SerialQueue

open Cream.Library PercentCoding Msgblock

/-! ## Pending queues -/

/-- The bytes of some messages. -/
def bytes (msgs : List QueueMessage) : Nat := (msgs.map (·.msg.length)).sum

/-- Without a message there are none. -/
@[simp] theorem bytes_nil : bytes [] = 0 := rfl

/-- One message more. -/
@[simp] theorem bytes_cons (qm : QueueMessage) (msgs : List QueueMessage) :
    bytes (qm :: msgs) = qm.msg.length + bytes msgs := by simp [bytes]

/-- The bytes of messages behind each other. -/
@[simp] theorem bytes_append (a b : List QueueMessage) : bytes (a ++ b) = bytes a + bytes b := by
  simp [bytes]

def readySum (queues : List CommandQueue) : Nat := (queues.map fun q => bytes q.readyQueue).sum

def upcomingSum (queues : List CommandQueue) : Nat :=
  (queues.map fun q => bytes q.upcomingQueue).sum

/-- What waits in a queue, in the order in which it is to be sent. -/
def queued (id : Nat) (queues : List CommandQueue) : List QueueMessage :=
  queues.flatMap fun q => if q.id = id then q.readyQueue ++ q.upcomingQueue else []

/-- A queue is in the list once, and only while it has messages. -/
structure Listed (queues : List CommandQueue) : Prop where
  nodup : (queues.map (·.id)).Nodup
  nonempty : ∀ q ∈ queues, q.readyQueue ≠ [] ∨ q.upcomingQueue ≠ []

/-- The queues before and behind one are other queues. -/
theorem Listed.ids {a b : List CommandQueue} {q : CommandQueue} (h : Listed (a ++ q :: b)) :
    (∀ p ∈ a, p.id ≠ q.id) ∧ ∀ p ∈ b, p.id ≠ q.id := by
  have hnodup := h.nodup
  rw [List.map_append, List.map_cons, List.nodup_append] at hnodup
  constructor
  · intro p hp heq
    exact hnodup.2.2 p.id (List.mem_map_of_mem hp) q.id List.mem_cons_self heq
  · intro p hp heq
    exact (List.nodup_cons.mp hnodup.2.1).1 (heq ▸ List.mem_map_of_mem hp)

/-- A queue without a message is passed over. -/
theorem lower_nil {best : Nat × Option (CommandQueue × QueueMessage)} {q : CommandQueue}
    (h : q.readyQueue = []) : lower best q = best := by
  unfold lower
  rw [h]

/-- A queue with a message is taken if its clock is lower. -/
theorem lower_cons {best : Nat × Option (CommandQueue × QueueMessage)} {q : CommandQueue}
    {m : QueueMessage} {rest : List QueueMessage} (h : q.readyQueue = m :: rest) :
    lower best q = if m.reqClock < best.1 then (m.reqClock, some (q, m)) else best := by
  unfold lower
  rw [h]

/-- The search finds a queue with a message. -/
theorem highestPriority_some {queues : List CommandQueue} {q : CommandQueue} {qm : QueueMessage}
    (h : highestPriority queues = some (q, qm)) :
    q ∈ queues ∧ ∃ rest, q.readyQueue = qm :: rest := by
  have hfold : ∀ (l : List CommandQueue) (best : Nat × Option (CommandQueue × QueueMessage)),
      (∀ p m, best.2 = some (p, m) → p ∈ queues ∧ ∃ rest, p.readyQueue = m :: rest) →
      (∀ p ∈ l, p ∈ queues) → ∀ p m, (l.foldl lower best).2 = some (p, m) →
        p ∈ queues ∧ ∃ rest, p.readyQueue = m :: rest := by
    intro l
    induction l with
    | nil => exact fun best hbest _ => hbest
    | cons x l ih =>
      intro best hbest hl
      refine ih _ ?_ fun p hp => hl p (List.mem_cons_of_mem x hp)
      cases hx : x.readyQueue with
      | nil => rwa [lower_nil hx]
      | cons m rest =>
        rw [lower_cons hx]
        split
        · rintro p m' hpm
          simp only [Option.some.injEq, Prod.mk.injEq] at hpm
          obtain ⟨rfl, rfl⟩ := hpm
          exact ⟨hl x List.mem_cons_self, rest, hx⟩
        · exact hbest
  exact hfold queues _ (by simp) (fun p hp => hp) q qm h

/-- The list when a message was taken from one of its queues. -/
theorem takeReady_append {a b : List CommandQueue} {q : CommandQueue}
    (h : Listed (a ++ q :: b)) :
    takeReady q.id (a ++ q :: b) =
      a ++ (if q.readyQueue.tail = [] ∧ q.upcomingQueue = [] then []
        else [{ q with readyQueue := q.readyQueue.tail }]) ++ b := by
  have hother : ∀ l : List CommandQueue, (∀ p ∈ l, p.id ≠ q.id) → takeReady q.id l = l := by
    intro l hl
    induction l with
    | nil => rfl
    | cons p l ih =>
      have hp := hl p List.mem_cons_self
      have hrest := ih fun p hp => hl p (List.mem_cons_of_mem _ hp)
      unfold takeReady at hrest ⊢
      rw [List.filterMap_cons, if_neg hp, hrest]
  have happend : takeReady q.id (a ++ [q] ++ b) =
      takeReady q.id a ++ takeReady q.id [q] ++ takeReady q.id b := by
    unfold takeReady
    rw [List.filterMap_append, List.filterMap_append]
  rw [← List.append_cons] at happend
  rw [happend, hother a h.ids.1, hother b h.ids.2]
  congr 2
  unfold takeReady
  rw [List.filterMap_cons, if_pos rfl]
  split <;> simp_all

/-- What is ready in two lists of queues. -/
@[simp] theorem readySum_append (a b : List CommandQueue) :
    readySum (a ++ b) = readySum a + readySum b := by simp [readySum]

/-- What is ready in one queue more. -/
@[simp] theorem readySum_cons (q : CommandQueue) (l : List CommandQueue) :
    readySum (q :: l) = bytes q.readyQueue + readySum l := by simp [readySum]

/-- What is not ready yet in two lists of queues. -/
@[simp] theorem upcomingSum_append (a b : List CommandQueue) :
    upcomingSum (a ++ b) = upcomingSum a + upcomingSum b := by simp [upcomingSum]

/-- What is not ready yet in one queue more. -/
@[simp] theorem upcomingSum_cons (q : CommandQueue) (l : List CommandQueue) :
    upcomingSum (q :: l) = bytes q.upcomingQueue + upcomingSum l := by simp [upcomingSum]

/-- What waits in two lists of queues. -/
@[simp] theorem queued_append (id : Nat) (a b : List CommandQueue) :
    queued id (a ++ b) = queued id a ++ queued id b := by simp [queued]

/-- What waits in one queue more. -/
@[simp] theorem queued_cons (id : Nat) (q : CommandQueue) (l : List CommandQueue) :
    queued id (q :: l) = (if q.id = id then q.readyQueue ++ q.upcomingQueue else []) ++
      queued id l := by simp [queued]

/-- Nothing is queued under a number that is not in the list. -/
theorem queued_eq_nil {id : Nat} {l : List CommandQueue} (h : ∀ q ∈ l, q.id ≠ id) :
    queued id l = [] := by
  refine List.flatMap_eq_nil_iff.mpr fun q hq => ?_
  rw [if_neg (h q hq)]

/-- **Taking a message** from the queue that has it at the head. -/
theorem takeReady_spec {queues : List CommandQueue} (h : Listed queues) {q : CommandQueue}
    (hq : q ∈ queues) {qm : QueueMessage} {rest : List QueueMessage}
    (hready : q.readyQueue = qm :: rest) :
    Listed (takeReady q.id queues) ∧
      readySum queues = qm.msg.length + readySum (takeReady q.id queues) ∧
      upcomingSum (takeReady q.id queues) = upcomingSum queues ∧
      (queues.map (·.readyQueue.length)).sum =
        ((takeReady q.id queues).map (·.readyQueue.length)).sum + 1 ∧
      ∀ id, queued id queues =
        (if q.id = id then [qm] else []) ++ queued id (takeReady q.id queues) := by
  obtain ⟨a, b, rfl⟩ := List.append_of_mem hq
  have htail : q.readyQueue.tail = rest := by rw [hready]; rfl
  rw [takeReady_append h, htail]
  have hids := h.ids
  have hqueued : ∀ id, q.id = id → queued id a = [] := by
    rintro id rfl
    exact queued_eq_nil hids.1
  have hsub : (a.map (·.id) ++ b.map (·.id)).Nodup := by
    have hnodup := h.nodup
    rw [List.map_append, List.map_cons] at hnodup
    exact hnodup.sublist (List.Sublist.append_left (List.sublist_cons_self _ _) _)
  by_cases hempty : rest = [] ∧ q.upcomingQueue = []
  · rw [if_pos hempty, List.append_nil]
    obtain ⟨rfl, hupcoming⟩ := hempty
    refine ⟨⟨by rwa [List.map_append], fun p hp => ?_⟩, ?_, ?_, ?_, fun id => ?_⟩
    · refine h.nonempty p ?_
      rcases List.mem_append.mp hp with hp | hp
      · exact List.mem_append_left _ hp
      · exact List.mem_append_right _ (List.mem_cons_of_mem _ hp)
    · simp [hready]
      omega
    · simp [hupcoming]
    · simp [hready]
      omega
    · by_cases hid : q.id = id
      · simp [hid, hready, hupcoming, hqueued id hid]
      · simp [hid]
  · rw [if_neg hempty]
    refine ⟨⟨?_, fun p hp => ?_⟩, ?_, ?_, ?_, fun id => ?_⟩
    · have hnodup := h.nodup
      simpa using hnodup
    · rcases List.mem_append.mp hp with hp | hp
      · rcases List.mem_append.mp hp with hp | hp
        · exact h.nonempty p (List.mem_append_left _ hp)
        · rw [List.mem_singleton.mp hp]
          exact not_and_or.mp hempty
      · exact h.nonempty p (List.mem_append_right _ (List.mem_cons_of_mem _ hp))
    · simp [hready]
      omega
    · simp
    · simp [hready]
      omega
    · by_cases hid : q.id = id
      · simp [hid, hready, hqueued id hid]
      · simp [hid]

/-- **Messages become ready** in their order. -/
theorem becomeReady_spec {queues : List CommandQueue} (h : Listed queues) (ackClock : Nat) :
    Listed (queues.map (becomeReady ackClock)) ∧
      readySum (queues.map (becomeReady ackClock)) =
        readySum queues + (queues.map (movedBytes ackClock)).sum ∧
      upcomingSum queues = upcomingSum (queues.map (becomeReady ackClock)) +
        (queues.map (movedBytes ackClock)).sum ∧
      ∀ id, queued id (queues.map (becomeReady ackClock)) = queued id queues := by
  have hsplit : ∀ q : CommandQueue, (becomeReady ackClock q).readyQueue ++
      (becomeReady ackClock q).upcomingQueue = q.readyQueue ++ q.upcomingQueue := fun q => by
    rw [becomeReady, List.append_assoc, List.takeWhile_append_dropWhile]
  refine ⟨⟨?_, fun p hp => ?_⟩, ?_, ?_, fun id => ?_⟩
  · have hids : (queues.map (becomeReady ackClock)).map (·.id) = queues.map (·.id) := by
      rw [List.map_map]
      rfl
    rw [hids]
    exact h.nodup
  · obtain ⟨q, hq, rfl⟩ := List.mem_map.mp hp
    by_contra hnone
    rw [not_or, not_not, not_not] at hnone
    have hnil := hsplit q
    rw [hnone.1, hnone.2] at hnil
    have hboth := List.append_eq_nil_iff.mp hnil.symm
    exact (h.nonempty q hq).elim (· hboth.1) (· hboth.2)
  · clear h
    induction queues with
    | nil => rfl
    | cons q l ih =>
      simp only [List.map_cons, readySum_cons, List.sum_cons, ih, becomeReady, bytes_append]
      simp only [movedBytes, bytes]
      omega
  · clear h
    induction queues with
    | nil => rfl
    | cons q l ih =>
      have hbytes := congrArg bytes
        (List.takeWhile_append_dropWhile (p := fun qm : QueueMessage => qm.minClock ≤ ackClock)
          (l := q.upcomingQueue))
      rw [bytes_append] at hbytes
      simp only [List.map_cons, upcomingSum_cons, List.sum_cons, ih, becomeReady, movedBytes]
      simp only [bytes] at hbytes ⊢
      omega
  · clear h
    induction queues with
    | nil => rfl
    | cons q l ih =>
      rw [List.map_cons, queued_cons, queued_cons, ih, hsplit]
      rfl

/-- **Messages come in** behind those of their queue. -/
theorem joinUpcoming_spec {queues : List CommandQueue} (h : Listed queues) (id : Nat)
    {msgs : List QueueMessage} (hne : msgs ≠ []) :
    Listed (joinUpcoming id msgs queues) ∧
      readySum (joinUpcoming id msgs queues) = readySum queues ∧
      upcomingSum (joinUpcoming id msgs queues) = upcomingSum queues + bytes msgs ∧
      ∀ id', queued id' (joinUpcoming id msgs queues) =
        queued id' queues ++ (if id = id' then msgs else []) := by
  unfold joinUpcoming
  split
  · next hany =>
    obtain ⟨q, hq, hid⟩ := List.any_eq_true.mp hany
    have hqid : q.id = id := of_decide_eq_true hid
    subst hqid
    obtain ⟨a, b, rfl⟩ := List.append_of_mem hq
    have hother : ∀ l : List CommandQueue, (∀ p ∈ l, p.id ≠ q.id) →
        l.map (fun cq => if cq.id = q.id then
          { cq with upcomingQueue := cq.upcomingQueue ++ msgs } else cq) = l := fun l hl =>
      (List.map_congr_left fun p hp => if_neg (hl p hp)).trans (List.map_id l)
    rw [List.map_append, List.map_cons, hother a h.ids.1, hother b h.ids.2, if_pos rfl]
    have hnil : ∀ id', q.id = id' → queued id' a = [] ∧ queued id' b = [] := by
      rintro id' rfl
      exact ⟨queued_eq_nil h.ids.1, queued_eq_nil h.ids.2⟩
    refine ⟨⟨?_, fun p hp => ?_⟩, ?_, ?_, fun id' => ?_⟩
    · simpa using h.nodup
    · rcases List.mem_append.mp hp with hp | hp
      · exact h.nonempty p (List.mem_append_left _ hp)
      · rcases List.mem_cons.mp hp with rfl | hp
        · exact .inr (by simp [hne])
        · exact h.nonempty p (List.mem_append_right _ (List.mem_cons_of_mem _ hp))
    · simp
    · simp
      omega
    · by_cases hid' : q.id = id'
      · simp [hid', hnil id' hid']
      · simp [hid']
  · next hany =>
    have hids : ∀ q ∈ queues, q.id ≠ id := fun q hq heq =>
      hany (List.any_eq_true.mpr ⟨q, hq, decide_eq_true heq⟩)
    refine ⟨⟨?_, fun p hp => ?_⟩, ?_, ?_, fun id' => ?_⟩
    · rw [List.map_append, List.nodup_append]
      refine ⟨h.nodup, by simp, fun i hi j hj => ?_⟩
      obtain ⟨q, hq, rfl⟩ := List.mem_map.mp hi
      have hj' : j = id := by simpa using hj
      rw [hj']
      exact hids q hq
    · rcases List.mem_append.mp hp with hp | hp
      · exact h.nonempty p hp
      · rw [List.mem_singleton.mp hp]
        exact .inr hne
    · simp [readySum]
    · simp [upcomingSum]
    · simp [queued]

/-! ## Blocks -/

/-- The block with a number and some messages. -/
def block (b : Nat × List (Nat × QueueMessage)) : Bytes := frame (seqByte b.1) (payload b.2)

/-- The messages that come from one queue. -/
def ofQueue (id : Nat) (taken : List (Nat × QueueMessage)) : List QueueMessage :=
  (taken.filter (·.1 = id)).map (·.2)

/-- The messages with a notification, in a block with this number. -/
def notifying (b : Nat × List (Nat × QueueMessage)) : List (Nat × QueueMessage) :=
  (b.2.filter (·.2.notifyId ≠ 0)).map fun m => (b.1, m.2)

/-- What is in the queues and what the books say of it. -/
structure Kept (sq : SerialQueue) : Prop where
  listed : Listed sq.pendingQueues
  ready : sq.readyBytes = readySum sq.pendingQueues
  upcoming : sq.upcomingBytes = upcomingSum sq.pendingQueues

/-- From one state to another some messages were put into the block that is being built. -/
structure Filled (sq sq' : SerialQueue) (len : Nat) (taken : List (Nat × QueueMessage)) : Prop where
  same : sq' = { sq with
    pendingQueues := sq'.pendingQueues
    readyBytes := sq'.readyBytes
    notifyQueue := sq.notifyQueue ++ notifying (sq.sendSeq, taken) }
  kept : Kept sq'
  fits : len ≤ MESSAGE_MAX - MESSAGE_TRAILER_SIZE →
    len + (payload taken).length ≤ MESSAGE_MAX - MESSAGE_TRAILER_SIZE
  order : ∀ id, queued id sq.pendingQueues = ofQueue id taken ++ queued id sq'.pendingQueues

/-- Nothing was put into the block. -/
theorem Filled.refl {sq : SerialQueue} (h : Kept sq) (len : Nat) : Filled sq sq len [] where
  same := by simp [notifying]
  kept := h
  fits hlen := hlen
  order _ := rfl

/-- One message more was put into the block. -/
theorem Filled.cons {sq sq' : SerialQueue} {len : Nat} {cq : CommandQueue} {qm : QueueMessage}
    {taken : List (Nat × QueueMessage)}
    (h : Filled (sq.takeMessage cq qm) sq' (len + qm.msg.length) taken)
    (hfits : len + qm.msg.length ≤ MESSAGE_MAX - MESSAGE_TRAILER_SIZE)
    (hqueued : ∀ id, queued id sq.pendingQueues =
      (if cq.id = id then [qm] else []) ++ queued id (takeReady cq.id sq.pendingQueues)) :
    Filled sq sq' len ((cq.id, qm) :: taken) where
  same := by
    rw [h.same]
    by_cases hid : qm.notifyId = 0
    · simp [takeMessage, notifying, hid]
    · simp [takeMessage, notifying, hid]
  kept := h.kept
  fits _ := by
    have hlen := h.fits hfits
    have hpayload : payload ((cq.id, qm) :: taken) = qm.msg ++ payload taken := rfl
    rw [hpayload, List.length_append]
    omega
  order id := by
    have hrest : queued id (takeReady cq.id sq.pendingQueues) =
        ofQueue id taken ++ queued id sq'.pendingQueues := h.order id
    rw [hqueued id, hrest]
    by_cases hid : cq.id = id
    · simp [ofQueue, hid]
    · simp [ofQueue, hid]

/-- Taking a message keeps the books of the queues. -/
theorem Kept.takeMessage {sq : SerialQueue} (h : Kept sq) {cq : CommandQueue} {qm : QueueMessage}
    (hpriority : highestPriority sq.pendingQueues = some (cq, qm)) : Kept (sq.takeMessage cq qm) := by
  obtain ⟨hcq, rest, hhead⟩ := highestPriority_some hpriority
  obtain ⟨hlisted, hsum, hupcoming, -⟩ := takeReady_spec h.listed hcq hhead
  refine ⟨hlisted, ?_, ?_⟩
  · have hready := h.ready
    simp only [SerialQueue.takeMessage]
    omega
  · exact h.upcoming.trans (by rw [← hupcoming]; rfl)

/-- **Filling a block**: messages are moved from their queues into it, as far as they fit. -/
theorem fillBlock_filled (fuel : Nat) {sq : SerialQueue} (h : Kept sq) (len : Nat) :
    Filled sq (fillBlock fuel sq len).1 len (fillBlock fuel sq len).2 := by
  induction fuel generalizing sq len with
  | zero => exact .refl h len
  | succ fuel ih =>
    rw [fillBlock]
    split
    · exact .refl h len
    split
    · exact .refl h len
    next cq qm hpriority =>
    split
    · exact .refl h len
    next hfits =>
    obtain ⟨hcq, rest, hhead⟩ := highestPriority_some hpriority
    obtain ⟨-, -, -, -, hqueued⟩ := takeReady_spec h.listed hcq hhead
    exact (ih (h.takeMessage hpriority) _).cons (by omega) hqueued

/-! ## The books -/

/-- The bytes that are not acknowledged. -/
def sentBytes (sq : SerialQueue) : Nat := (sq.sentQueue.map List.length).sum

/-- What the serial queue counts is what it has, and no more is under way than may be. -/
structure Accounts (sq : SerialQueue) : Prop where
  kept : Kept sq
  needAck : sq.needAckBytes = sq.sentBytes
  sent : sq.sendSeq = sq.receiveSeq + sq.sentQueue.length
  pending : sq.sentQueue.length ≤ MAX_PENDING_BLOCKS
  blocks : ∀ b ∈ sq.sentQueue, b.length ≤ MESSAGE_MAX
  timer : sq.retransmitTimer = .never ↔ sq.sentQueue = []
  lastAck : 0 ≤ sq.lastAckBytes

/-- The books of a serial queue that was just opened. -/
theorem accounts_alloc : Accounts alloc where
  kept := ⟨⟨by simp [alloc], by simp [alloc]⟩, rfl, rfl⟩
  needAck := rfl
  sent := rfl
  pending := by simp [alloc]
  blocks := by simp [alloc]
  timer := by simp [alloc]
  lastAck := by simp [alloc]

/-- From one state to another some blocks were built. -/
structure Built (sq sq' : SerialQueue) (blocks : List (Nat × List (Nat × QueueMessage))) :
    Prop where
  seqs : blocks.map (·.1) = List.range' sq.sendSeq blocks.length
  sendSeq : sq'.sendSeq = sq.sendSeq + blocks.length
  receiveSeq : sq'.receiveSeq = sq.receiveSeq
  receiveWindow : sq'.receiveWindow = sq.receiveWindow
  sentQueue : sq'.sentQueue = sq.sentQueue ++ blocks.map block
  notifyQueue : sq'.notifyQueue = sq.notifyQueue ++ blocks.flatMap notifying
  receiveQueue : sq'.receiveQueue = sq.receiveQueue
  order : ∀ id, queued id sq.pendingQueues =
    ofQueue id (blocks.flatMap (·.2)) ++ queued id sq'.pendingQueues
  fits : ∀ b ∈ blocks, (payload b.2).length ≤ MESSAGE_PAYLOAD_MAX

/-- Messages behind each other, of one queue. -/
theorem ofQueue_append (id : Nat) (a b : List (Nat × QueueMessage)) :
    ofQueue id (a ++ b) = ofQueue id a ++ ofQueue id b := by
  simp [ofQueue]

/-- Blocks that are built after others. -/
theorem Built.trans {sq₁ sq₂ sq₃ : SerialQueue} {a b : List (Nat × List (Nat × QueueMessage))}
    (h : Built sq₁ sq₂ a) (h' : Built sq₂ sq₃ b) : Built sq₁ sq₃ (a ++ b) where
  seqs := by
    rw [List.map_append, h.seqs, h'.seqs, h.sendSeq, List.length_append,
      ← List.range'_append_1]
  sendSeq := by
    rw [h'.sendSeq, h.sendSeq, List.length_append]
    omega
  receiveSeq := h'.receiveSeq.trans h.receiveSeq
  receiveWindow := h'.receiveWindow.trans h.receiveWindow
  sentQueue := by rw [h'.sentQueue, h.sentQueue, List.map_append, List.append_assoc]
  notifyQueue := by rw [h'.notifyQueue, h.notifyQueue, List.flatMap_append, List.append_assoc]
  receiveQueue := h'.receiveQueue.trans h.receiveQueue
  order id := by
    rw [h.order, h'.order, List.flatMap_append, ofQueue_append, List.append_assoc]
  fits c hc := (List.mem_append.mp hc).elim (h.fits c) (h'.fits c)

/-- What is asked before a block is built changes the books of the queues only. -/
theorem checkSendCommand_spec {sq : SerialQueue} (h : Accounts sq) (clock : Clock) :
    Accounts (sq.checkSendCommand clock).1 ∧ Built sq (sq.checkSendCommand clock).1 [] ∧
      ((sq.checkSendCommand clock).2 = .now → ¬(sq.checkSendCommand clock).1.waitsForAck) := by
  obtain ⟨hlisted, hready, hupcoming, hqueued⟩ := becomeReady_spec h.kept.listed clock.ackClock
  have hbuilt : ∀ sq' : SerialQueue, sq'.sendSeq = sq.sendSeq → sq'.receiveSeq = sq.receiveSeq →
      sq'.receiveWindow = sq.receiveWindow → sq'.sentQueue = sq.sentQueue →
      sq'.notifyQueue = sq.notifyQueue → sq'.receiveQueue = sq.receiveQueue →
      (∀ id, queued id sq'.pendingQueues = queued id sq.pendingQueues) → Built sq sq' [] := by
    intro sq' hsend hreceive hwindow hsent hnotify hreceived horder
    exact ⟨rfl, hsend, hreceive, hwindow, by simp [hsent], by simp [hnotify], hreceived,
      fun id => by simp [ofQueue, horder], by simp⟩
  -- the messages that have become ready, in the books
  have haccounts : ∀ (kick : Nat), Accounts { sq with
      pendingQueues := sq.pendingQueues.map (becomeReady clock.ackClock)
      upcomingBytes := sq.upcomingBytes - (sq.pendingQueues.map (movedBytes clock.ackClock)).sum
      readyBytes := sq.readyBytes + (sq.pendingQueues.map (movedBytes clock.ackClock)).sum
      needKickClock := kick } := fun kick =>
    ⟨⟨hlisted, by have := h.kept.ready; simp only; omega,
      by have := h.kept.upcoming; simp only; omega⟩, h.needAck, h.sent, h.pending, h.blocks,
      h.timer, h.lastAck⟩
  unfold checkSendCommand
  dsimp only
  split
  · exact ⟨h, hbuilt sq rfl rfl rfl rfl rfl rfl fun _ => rfl, by simp⟩
  next hopen =>
  split
  · exact ⟨haccounts _, hbuilt _ rfl rfl rfl rfl rfl rfl hqueued, fun _ => hopen⟩
  split
  · split
    · exact ⟨haccounts _, hbuilt _ rfl rfl rfl rfl rfl rfl hqueued, fun _ => hopen⟩
    · exact ⟨haccounts _, hbuilt _ rfl rfl rfl rfl rfl rfl hqueued, by simp⟩
  split
  · exact ⟨haccounts _, hbuilt _ rfl rfl rfl rfl rfl rfl hqueued, fun _ => hopen⟩
  · exact ⟨haccounts _, hbuilt _ rfl rfl rfl rfl rfl rfl hqueued, by simp⟩

/-- A block that is built fits. -/
theorem buildAndSendCommand_fits {sq : SerialQueue} (h : Kept sq) :
    (payload sq.buildAndSendCommand.2).length ≤ MESSAGE_PAYLOAD_MAX ∧
      (frame (seqByte sq.sendSeq) (payload sq.buildAndSendCommand.2)).length ≤ MESSAGE_MAX := by
  have hfits := (fillBlock_filled sq.readyCount h MESSAGE_HEADER_SIZE).fits (by decide)
  have htaken : sq.buildAndSendCommand.2 = (fillBlock sq.readyCount sq MESSAGE_HEADER_SIZE).2 := rfl
  rw [htaken, length_frame]
  unfold MESSAGE_HEADER_SIZE MESSAGE_TRAILER_SIZE at hfits
  unfold MESSAGE_PAYLOAD_MAX MESSAGE_MIN MESSAGE_HEADER_SIZE
  omega

/-- What is without acknowledgment when a block was built. -/
theorem sentBytes_buildAndSendCommand (sq : SerialQueue) :
    sq.buildAndSendCommand.1.sentBytes =
      sq.sentBytes + (frame (seqByte sq.sendSeq) (payload sq.buildAndSendCommand.2)).length := by
  simp [sentBytes, buildAndSendCommand]

/-- **Building a block**, when the window is open. -/
theorem buildAndSendCommand_spec {sq : SerialQueue} (h : Accounts sq) (hopen : ¬sq.waitsForAck) :
    Accounts sq.buildAndSendCommand.1 ∧
      Built sq sq.buildAndSendCommand.1 [(sq.sendSeq, sq.buildAndSendCommand.2)] := by
  have hfilled := fillBlock_filled sq.readyCount h.kept MESSAGE_HEADER_SIZE
  have hsame := hfilled.same
  obtain ⟨hpayload, hlength⟩ := buildAndSendCommand_fits h.kept
  have hbytes := sentBytes_buildAndSendCommand sq
  unfold buildAndSendCommand at hpayload hlength hbytes ⊢
  dsimp only at hpayload hlength hbytes ⊢
  generalize fillBlock sq.readyCount sq MESSAGE_HEADER_SIZE = r at *
  unfold waitsForAck at hopen
  rw [not_or] at hopen
  have hsent := h.sent
  have hroom : sq.sentQueue.length < MAX_PENDING_BLOCKS := by omega
  have hreceive : r.1.receiveSeq = sq.receiveSeq := by rw [hsame]
  have hwindow : r.1.receiveWindow = sq.receiveWindow := by rw [hsame]
  have hlast : r.1.lastAckBytes = sq.lastAckBytes := by rw [hsame]
  have hreceived : r.1.receiveQueue = sq.receiveQueue := by rw [hsame]
  have hnotify : r.1.notifyQueue = sq.notifyQueue ++ notifying (sq.sendSeq, r.2) := by rw [hsame]
  refine ⟨⟨⟨hfilled.kept.listed, hfilled.kept.ready, hfilled.kept.upcoming⟩, ?_, ?_, ?_, ?_, ?_,
    ?_⟩, ⟨rfl, rfl, hreceive, hwindow, rfl, ?_, hreceived, ?_, ?_⟩⟩
  · have hneed := h.needAck
    rw [hbytes]
    push_cast
    omega
  · simp only [List.length_append, List.length_singleton]
    omega
  · simp only [List.length_append, List.length_singleton]
    omega
  · intro b hb
    rcases List.mem_append.mp hb with hb | hb
    · exact h.blocks b hb
    · rw [List.mem_singleton.mp hb]
      exact hlength
  · have htimer := h.timer
    dsimp only
    split
    · simp
    · next hne => simp [htimer, hne]
  · exact hlast ▸ h.lastAck
  · simpa using hnotify
  · intro id
    simpa using hfilled.order id
  · intro b hb
    rw [List.mem_singleton.mp hb]
    exact hpayload

/-- **The loop of `command_event`** keeps the books, and it ends by itself. -/
theorem commandLoop_spec (clocks : List Clock) {sq : SerialQueue} (h : Accounts sq)
    (hclocks : MAX_PENDING_BLOCKS < clocks.length + sq.sentQueue.length) :
    Accounts (commandLoop clocks sq).1 ∧
      Built sq (commandLoop clocks sq).1 (commandLoop clocks sq).2 ∧
      (commandLoop clocks sq).1.commandTimer ≠ .now := by
  induction clocks generalizing sq with
  | nil =>
    have hpending := h.pending
    simp only [List.length_nil] at hclocks
    omega
  | cons clock clocks ih =>
    obtain ⟨haccounts, hbuilt, hopen⟩ := checkSendCommand_spec h clock
    rw [commandLoop]
    dsimp only
    split
    · next hlater =>
      exact ⟨⟨⟨haccounts.kept.listed, haccounts.kept.ready, haccounts.kept.upcoming⟩,
          haccounts.needAck, haccounts.sent, haccounts.pending, haccounts.blocks, haccounts.timer,
          haccounts.lastAck⟩,
        ⟨hbuilt.seqs, hbuilt.sendSeq, hbuilt.receiveSeq, hbuilt.receiveWindow, hbuilt.sentQueue,
          hbuilt.notifyQueue, hbuilt.receiveQueue, hbuilt.order, hbuilt.fits⟩, hlater⟩
    · next hnow =>
      obtain ⟨haccounts', hbuilt'⟩ :=
        buildAndSendCommand_spec haccounts (hopen (not_not.mp hnow))
      have hseq : (sq.checkSendCommand clock).1.sendSeq = sq.sendSeq := hbuilt.sendSeq
      rw [hseq] at hbuilt'
      have hlength : (sq.checkSendCommand clock).1.buildAndSendCommand.1.sentQueue.length =
          sq.sentQueue.length + 1 := by
        rw [hbuilt'.sentQueue, hbuilt.sentQueue]
        simp
      obtain ⟨hrest, hbuilt'', htimer⟩ := ih haccounts' (by simp at hclocks; omega)
      exact ⟨hrest, (hbuilt.trans hbuilt').trans hbuilt'', htimer⟩

/-- **What `command_event` does**, whatever the clocks say. -/
theorem commandEvent_spec (clock : Nat → Clock) {sq : SerialQueue} (h : Accounts sq) :
    Accounts (sq.commandEvent clock).1 ∧
      Built sq (sq.commandEvent clock).1 (sq.commandEvent clock).2 ∧
      (sq.commandEvent clock).1.commandTimer ≠ .now :=
  commandLoop_spec _ h (by
    rw [List.length_map, List.length_range]
    omega)

/-! ## Acknowledgments -/

/-- **Blocks that are acknowledged leave the queue**: those before the new number, or all when
they have never had it. -/
theorem removeSent_spec (rseq : Nat) (sent : List Bytes) (seq : Nat) (hseq : seq < rseq)
    (sq : SerialQueue) :
    ∃ last, removeSent rseq sent seq { sq with sentQueue := sent } =
      { sq with
        sentQueue := sent.drop (rseq - seq)
        needAckBytes := sq.needAckBytes - ((sent.take (rseq - seq)).map List.length).sum
        lastAckBytes := last
        sendSeq := if rseq ≤ seq + sent.length then sq.sendSeq else rseq } ∧
      (0 ≤ sq.lastAckBytes → 0 ≤ last) := by
  induction sent generalizing seq sq with
  | nil =>
    have hnot : ¬rseq ≤ seq := by omega
    exact ⟨sq.lastAckBytes, by simp [removeSent, hnot], fun h => h⟩
  | cons b sent ih =>
    rw [removeSent]
    dsimp only
    split
    · next hlast =>
      have hle : rseq ≤ seq + (b :: sent).length := by
        simp only [List.length_cons]
        omega
      exact ⟨b.length, by simp [hlast], fun _ => by omega⟩
    · next hmore =>
      obtain ⟨k, hk⟩ : ∃ k, rseq - seq = k + 1 := ⟨rseq - seq - 1, by omega⟩
      have hk' : rseq - (seq + 1) = k := by omega
      have hle : rseq ≤ seq + 1 + sent.length ↔ rseq ≤ seq + (b :: sent).length := by
        simp only [List.length_cons]
        omega
      obtain ⟨last, heq, hlast⟩ := ih (seq + 1) (by omega)
        { sq with needAckBytes := sq.needAckBytes - b.length }
      refine ⟨last, ?_, hlast⟩
      rw [heq]
      simp only [hk, hk', hle, List.drop_succ_cons, List.take_succ_cons, List.map_cons,
        List.sum_cons]
      congr 1
      push_cast
      omega

/-- **A new number** is taken over. -/
theorem updateReceiveSeq_spec {sq : SerialQueue} (h : Accounts sq) {rseq : Nat}
    (hrseq : sq.receiveSeq < rseq) :
    Accounts (sq.updateReceiveSeq rseq) ∧
      (sq.updateReceiveSeq rseq).receiveSeq = rseq ∧
      (sq.updateReceiveSeq rseq).sendSeq = max sq.sendSeq rseq ∧
      (sq.updateReceiveSeq rseq).sentQueue = sq.sentQueue.drop (rseq - sq.receiveSeq) ∧
      (sq.updateReceiveSeq rseq).pendingQueues = sq.pendingQueues ∧
      (sq.updateReceiveSeq rseq).receiveWindow = sq.receiveWindow ∧
      (sq.updateReceiveSeq rseq).notifyQueue = sq.notifyQueue ∧
      (sq.updateReceiveSeq rseq).receiveQueue = sq.receiveQueue := by
  obtain ⟨last, heq, hlast⟩ := removeSent_spec rseq sq.sentQueue sq.receiveSeq hrseq sq
  have hsent := h.sent
  have hpending := h.pending
  have hsum : sq.sentBytes = ((sq.sentQueue.take (rseq - sq.receiveSeq)).map List.length).sum +
      ((sq.sentQueue.drop (rseq - sq.receiveSeq)).map List.length).sum := by
    rw [← List.sum_append, ← List.map_append, List.take_append_drop]
    rfl
  have hsend : (if rseq ≤ sq.receiveSeq + sq.sentQueue.length then sq.sendSeq else rseq) =
      max sq.sendSeq rseq := by
    split <;> omega
  have hstate : sq.updateReceiveSeq rseq =
      { sq with
        sentQueue := sq.sentQueue.drop (rseq - sq.receiveSeq)
        needAckBytes := sq.needAckBytes -
          ((sq.sentQueue.take (rseq - sq.receiveSeq)).map List.length).sum
        lastAckBytes := last
        sendSeq := max sq.sendSeq rseq
        receiveSeq := rseq
        commandTimer := .now
        retransmitTimer :=
          if sq.sentQueue.drop (rseq - sq.receiveSeq) = [] then .never else .at } := by
    have heq' : removeSent rseq sq.sentQueue sq.receiveSeq sq = _ := heq
    unfold updateReceiveSeq
    rw [heq', hsend]
  rw [hstate]
  refine ⟨⟨⟨h.kept.listed, h.kept.ready, h.kept.upcoming⟩, ?_, ?_, ?_, ?_, ?_, hlast h.lastAck⟩,
    rfl, rfl, rfl, rfl, rfl, rfl, rfl⟩
  · have hneed := h.needAck
    simp only [sentBytes] at hsum hneed ⊢
    omega
  · simp only [List.length_drop]
    omega
  · simp only [List.length_drop]
    omega
  · exact fun b hb => h.blocks b (List.mem_of_mem_drop hb)
  · dsimp only
    split <;> simp_all

/-- What `handle_message` does with the numbers, when it believes the message. -/
def acknowledged (sq : SerialQueue) (rseq : Nat) : SerialQueue :=
  if rseq ≠ sq.receiveSeq then sq.updateReceiveSeq rseq else sq

/-- Numbers are taken over, or stay as they are. -/
theorem acknowledged_spec {sq : SerialQueue} (h : Accounts sq) {rseq : Nat}
    (hrseq : sq.receiveSeq ≤ rseq) :
    Accounts (sq.acknowledged rseq) ∧ (sq.acknowledged rseq).receiveSeq = rseq ∧
      (sq.acknowledged rseq).sendSeq = max sq.sendSeq rseq ∧
      (sq.acknowledged rseq).sentQueue = sq.sentQueue.drop (rseq - sq.receiveSeq) ∧
      (sq.acknowledged rseq).pendingQueues = sq.pendingQueues ∧
      (sq.acknowledged rseq).receiveWindow = sq.receiveWindow ∧
      (sq.acknowledged rseq).notifyQueue = sq.notifyQueue ∧
      (sq.acknowledged rseq).receiveQueue = sq.receiveQueue := by
  unfold acknowledged
  split
  · exact updateReceiveSeq_spec h (by omega)
  · next hsame =>
    have heq : rseq = sq.receiveSeq := not_not.mp hsame
    have hsent := h.sent
    exact ⟨h, heq.symm, by omega, by simp [heq], rfl, rfl, rfl, rfl⟩

/-- No number is taken for one before the last that was acknowledged. -/
theorem le_receivedSeq (sq : SerialQueue) (msg : Bytes) : sq.receiveSeq ≤ sq.receivedSeq msg :=
  Nat.le_add_right _ _

/-- The notifications that a message brings, and the message itself. -/
def receipts (sq : SerialQueue) (rseq : Nat) (msg : Bytes) : List Received :=
  (sq.notifyQueue.takeWhile (·.1 ≤ wakeSeq rseq msg.length)).map (.notified ·.2.notifyId) ++
    if msg.length = MESSAGE_MIN then [] else [.message msg]

/-- **A message from the micro-controller**, whatever it is. -/
theorem handleMessage_spec {sq : SerialQueue} (h : Accounts sq) (msg : Bytes) :
    Accounts (sq.handleMessage msg) ∧
      (sq.handleMessage msg).pendingQueues = sq.pendingQueues ∧
      (sq.handleMessage msg).receiveWindow = sq.receiveWindow ∧
      ((sq.receivedSeq msg > sq.sendSeq ∧ sq.receiveSeq ≠ 1 ∧ sq.handleMessage msg = sq) ∨
        (¬(sq.receivedSeq msg > sq.sendSeq ∧ sq.receiveSeq ≠ 1) ∧
          (sq.handleMessage msg).receiveSeq = sq.receivedSeq msg ∧
          (sq.handleMessage msg).sendSeq = max sq.sendSeq (sq.receivedSeq msg) ∧
          (sq.handleMessage msg).sentQueue =
            sq.sentQueue.drop (sq.receivedSeq msg - sq.receiveSeq) ∧
          (sq.handleMessage msg).notifyQueue =
            sq.notifyQueue.dropWhile (·.1 ≤ wakeSeq (sq.receivedSeq msg) msg.length) ∧
          (sq.handleMessage msg).receiveQueue =
            sq.receiveQueue ++ receipts sq (sq.receivedSeq msg) msg)) := by
  have hle := le_receivedSeq sq msg
  have hsent := h.sent
  obtain ⟨hacc, hreceive, hsend, hqueue, hpending, hwindow, hnotify, hreceived⟩ :=
    acknowledged_spec h hle
  unfold handleMessage
  dsimp only
  split
  · next hrefused => exact ⟨h, rfl, rfl, .inl ⟨hrefused.2.1, hrefused.2.2, rfl⟩⟩
  next hbelieved =>
  have hbelieved' : ¬(sq.receivedSeq msg > sq.sendSeq ∧ sq.receiveSeq ≠ 1) := fun hno =>
    hbelieved ⟨by omega, hno⟩
  have hack : (if sq.receivedSeq msg ≠ sq.receiveSeq then
      sq.updateReceiveSeq (sq.receivedSeq msg) else sq) = sq.acknowledged (sq.receivedSeq msg) := rfl
  rw [hack]
  generalize sq.acknowledged (sq.receivedSeq msg) = sq' at *
  have hkeep : ∀ (ack : Nat) (timer : Timer) (notify : List (Nat × QueueMessage))
      (received : List Received), (timer = .never ↔ sq'.sentQueue = []) →
      Accounts { sq' with lastAckSeq := ack, retransmitTimer := timer, notifyQueue := notify,
                          receiveQueue := received } := fun ack timer notify received htimer =>
    ⟨⟨hacc.kept.listed, hacc.kept.ready, hacc.kept.upcoming⟩, hacc.needAck, hacc.sent,
      hacc.pending, hacc.blocks, htimer, hacc.lastAck⟩
  unfold receipts
  rw [← hnotify, ← hreceived, ← hpending, ← hwindow]
  split
  · next hmin =>
    rw [List.append_nil]
    split
    · exact ⟨hkeep _ _ _ _ hacc.timer, rfl, rfl, .inr ⟨hbelieved', hreceive, hsend, hqueue, rfl, rfl⟩⟩
    split
    · next hnak =>
      have hne : sq'.sentQueue ≠ [] := hnak.2
      exact ⟨hkeep _ _ _ _ (by simp [hne]), rfl, rfl,
        .inr ⟨hbelieved', hreceive, hsend, hqueue, rfl, rfl⟩⟩
    · exact ⟨hkeep _ _ _ _ hacc.timer, rfl, rfl, .inr ⟨hbelieved', hreceive, hsend, hqueue, rfl, rfl⟩⟩
  · refine ⟨hkeep _ _ _ _ hacc.timer, rfl, rfl, .inr ⟨hbelieved', hreceive, hsend, hqueue, rfl, ?_⟩⟩
    rw [← List.append_assoc]
    rfl

/-- The books do not depend on the bytes that were received. -/
theorem Accounts.input {sq : SerialQueue} (h : Accounts sq) (inputBuf : Bytes) (needSync : Bool) :
    Accounts { sq with inputBuf, needSync } :=
  ⟨⟨h.kept.listed, h.kept.ready, h.kept.upcoming⟩, h.needAck, h.sent, h.pending, h.blocks, h.timer,
    h.lastAck⟩

/-- **The loop of `input_event`** keeps the books. -/
theorem inputLoop_spec (fuel : Nat) {sq : SerialQueue} (h : Accounts sq) :
    Accounts (inputLoop fuel sq) ∧ (inputLoop fuel sq).pendingQueues = sq.pendingQueues := by
  induction fuel generalizing sq with
  | zero => exact ⟨h, rfl⟩
  | succ fuel ih =>
    rw [inputLoop]
    dsimp only
    have hsync := h.input sq.inputBuf (msgblockCheck sq.needSync sq.inputBuf).1
    split
    · exact ⟨hsync, rfl⟩
    split
    · obtain ⟨hmsg, hpending, -⟩ := handleMessage_spec hsync
        (sq.inputBuf.take (msgblockCheck sq.needSync sq.inputBuf).2.toNat)
      obtain ⟨hrest, hpending'⟩ := ih (hmsg.input _ _)
      exact ⟨hrest, hpending'.trans hpending⟩
    · obtain ⟨hrest, hpending'⟩ := ih (hsync.input _ _)
      exact ⟨hrest, hpending'⟩

/-! ## When messages are sent -/

/-- What is ready could be sent by the time `limit`. -/
def Due (limit : Nat) (queues : List CommandQueue) : Prop :=
  ∀ q ∈ queues, ∀ qm ∈ q.readyQueue, qm.minClock ≤ limit

/-- What becomes ready by a clock up to the limit is due. -/
theorem Due.becomeReady {limit ackClock : Nat} (hclock : ackClock ≤ limit)
    {queues : List CommandQueue} (h : Due limit queues) :
    Due limit (queues.map (becomeReady ackClock)) := by
  intro q hq qm hqm
  obtain ⟨p, hp, rfl⟩ := List.mem_map.mp hq
  rcases List.mem_append.mp hqm with hqm | hqm
  · exact h p hp qm hqm
  · have hle := List.mem_takeWhile_imp hqm
    exact (of_decide_eq_true hle).trans hclock

/-- What stays was due before. -/
theorem Due.takeReady {limit : Nat} {queues : List CommandQueue} (h : Due limit queues) (id : Nat) :
    Due limit (takeReady id queues) := by
  intro q hq qm hqm
  obtain ⟨p, hp, hpq⟩ := List.mem_filterMap.mp hq
  split at hpq
  · split at hpq
    · cases hpq
    · rw [Option.some.injEq] at hpq
      subst hpq
      exact h p hp qm (List.mem_of_mem_tail hqm)
  · rw [Option.some.injEq] at hpq
    subst hpq
    exact h p hp qm hqm

/-- What comes in is not ready yet. -/
theorem Due.joinUpcoming {limit : Nat} {queues : List CommandQueue} (h : Due limit queues)
    (id : Nat) (msgs : List QueueMessage) : Due limit (joinUpcoming id msgs queues) := by
  intro q hq qm hqm
  unfold SerialQueue.joinUpcoming at hq
  split at hq
  · obtain ⟨p, hp, rfl⟩ := List.mem_map.mp hq
    refine h p hp qm ?_
    split at hqm <;> exact hqm
  · rcases List.mem_append.mp hq with hq | hq
    · exact h q hq qm hqm
    · rw [List.mem_singleton.mp hq] at hqm
      cases hqm

/-- A block takes from what is ready. -/
theorem fillBlock_due (fuel : Nat) {limit : Nat} {sq : SerialQueue}
    (h : Due limit sq.pendingQueues) (len : Nat) :
    Due limit (fillBlock fuel sq len).1.pendingQueues ∧
      ∀ m ∈ (fillBlock fuel sq len).2, m.2.minClock ≤ limit := by
  induction fuel generalizing sq len with
  | zero => exact ⟨h, by simp [fillBlock]⟩
  | succ fuel ih =>
    rw [fillBlock]
    split
    · exact ⟨h, by simp⟩
    split
    · exact ⟨h, by simp⟩
    next cq qm hpriority =>
    split
    · exact ⟨h, by simp⟩
    obtain ⟨hcq, rest, hhead⟩ := highestPriority_some hpriority
    have htaken : Due limit (sq.takeMessage cq qm).pendingQueues := h.takeReady cq.id
    obtain ⟨hdue, hmem⟩ := ih htaken (len + qm.msg.length)
    refine ⟨hdue, fun m hm => ?_⟩
    rcases List.mem_cons.mp hm with rfl | hm
    · exact h cq hcq qm (by simp [hhead])
    · exact hmem m hm

/-- What is asked before a block is built keeps what is ready due. -/
theorem checkSendCommand_due {limit : Nat} {sq : SerialQueue} (h : Due limit sq.pendingQueues)
    {clock : Clock} (hclock : clock.ackClock ≤ limit) :
    Due limit (sq.checkSendCommand clock).1.pendingQueues := by
  have hready := h.becomeReady hclock
  unfold checkSendCommand
  dsimp only
  split
  · exact h
  split
  · exact hready
  split
  · split <;> exact hready
  split <;> exact hready

/-- **The loop of `command_event`** takes only what is due. -/
theorem commandLoop_due (clocks : List Clock) {limit : Nat} {sq : SerialQueue}
    (h : Due limit sq.pendingQueues) (hclocks : ∀ clock ∈ clocks, clock.ackClock ≤ limit) :
    Due limit (commandLoop clocks sq).1.pendingQueues ∧
      ∀ b ∈ (commandLoop clocks sq).2, ∀ m ∈ b.2, m.2.minClock ≤ limit := by
  induction clocks generalizing sq with
  | nil => exact ⟨h, by simp [commandLoop]⟩
  | cons clock clocks ih =>
    have hchecked := checkSendCommand_due h (hclocks clock List.mem_cons_self)
    rw [commandLoop]
    dsimp only
    split
    · exact ⟨hchecked, by simp⟩
    · obtain ⟨hdue, hmem⟩ := fillBlock_due (sq.checkSendCommand clock).1.readyCount hchecked
        MESSAGE_HEADER_SIZE
      have hbuilt : Due limit
          (sq.checkSendCommand clock).1.buildAndSendCommand.1.pendingQueues := hdue
      have hrounds : ∀ c ∈ clocks, c.ackClock ≤ limit := fun c hc =>
        hclocks c (List.mem_cons_of_mem clock hc)
      obtain ⟨hrest, hblocks⟩ := ih hbuilt hrounds
      refine ⟨hrest, fun b hb => ?_⟩
      rcases List.mem_cons.mp hb with rfl | hb
      · exact hmem
      · exact hblocks b hb

/-! ## Runs -/

/-- Messages keep their bytes when their clocks are adjusted. -/
theorem bytes_adjustMinClock (msgs : List QueueMessage) :
    bytes (msgs.map adjustMinClock) = bytes msgs := by
  have hsame : ∀ qm : QueueMessage, (adjustMinClock qm).msg = qm.msg := fun qm => by
    unfold adjustMinClock
    split <;> rfl
  simp only [bytes, List.map_map, Function.comp_def, hsame]

/-- The messages that an event puts into a queue. -/
def Event.submitted (id : Nat) : Event → List QueueMessage
  | .send id' msgs =>
    if id' = id ∧ bytes msgs ≠ 0 then msgs.map adjustMinClock else []
  | _ => []

/-- The blocks that are built at an event. -/
def Event.blocks (sq : SerialQueue) : Event → List (Nat × List (Nat × QueueMessage))
  | .command clock => (sq.commandEvent clock).2
  | _ => []

/-- **What one event does to the books, and to the order of messages.** -/
theorem step_spec {sq sq' : SerialQueue} (h : Accounts sq) (e : Event)
    (hstep : sq.step e = some sq') :
    Accounts sq' ∧ ∀ id, queued id sq.pendingQueues ++ e.submitted id =
      ofQueue id ((e.blocks sq).flatMap (·.2)) ++ queued id sq'.pendingQueues := by
  have hnone : ∀ id, queued id sq.pendingQueues ++ [] =
      ofQueue id [] ++ queued id sq.pendingQueues := by simp [ofQueue]
  cases e with
  | setReceiveWindow receiveWindow =>
    rw [step, Option.some.injEq] at hstep
    subst hstep
    exact ⟨⟨⟨h.kept.listed, h.kept.ready, h.kept.upcoming⟩, h.needAck, h.sent, h.pending,
      h.blocks, h.timer, h.lastAck⟩, hnone⟩
  | send id msgs =>
    rw [step, Option.some.injEq] at hstep
    subst hstep
    have hlen : ((msgs.map adjustMinClock).map (·.msg.length)).sum = bytes msgs :=
      bytes_adjustMinClock msgs
    unfold sendBatch
    dsimp only
    rw [hlen]
    split
    · next hzero => exact ⟨h, fun id' => by simp [Event.submitted, Event.blocks, ofQueue, hzero]⟩
    · next hne =>
      have hne' : msgs.map adjustMinClock ≠ [] := by
        intro hnil
        rw [List.map_eq_nil_iff.mp hnil] at hne
        exact hne rfl
      obtain ⟨hlisted, hready, hupcoming, hqueued⟩ := joinUpcoming_spec h.kept.listed id hne'
      rw [bytes_adjustMinClock] at hupcoming
      refine ⟨⟨⟨hlisted, ?_, ?_⟩, h.needAck, h.sent, h.pending, h.blocks, h.timer,
        h.lastAck⟩, fun id' => ?_⟩
      · rw [hready]
        exact h.kept.ready
      · have hold := h.kept.upcoming
        dsimp only
        omega
      · rw [hqueued id']
        simp [Event.submitted, Event.blocks, ofQueue, hne]
  | input data =>
    rw [step, Option.some.injEq] at hstep
    subst hstep
    have hdata := h.input (sq.inputBuf ++ data) sq.needSync
    obtain ⟨hacc, hpending⟩ := inputLoop_spec ((sq.inputBuf ++ data).length + 1) hdata
    refine ⟨hacc, fun id => ?_⟩
    have hpending' : (sq.inputEvent data).pendingQueues = sq.pendingQueues := hpending
    rw [hpending']
    exact hnone id
  | command clock =>
    rw [step] at hstep
    split at hstep
    · cases hstep
    · rw [Option.some.injEq] at hstep
      subst hstep
      obtain ⟨hacc, hbuilt, -⟩ := commandEvent_spec clock h
      exact ⟨hacc, fun id => (List.append_nil _).trans (hbuilt.order id)⟩
  | retransmit =>
    rw [step] at hstep
    split at hstep
    · cases hstep
    next htimer =>
    rw [Option.some.injEq] at hstep
    subst hstep
    have hne : sq.sentQueue ≠ [] := mt h.timer.mpr htimer
    exact ⟨⟨⟨h.kept.listed, h.kept.ready, h.kept.upcoming⟩, h.needAck, h.sent, h.pending,
      h.blocks, by simp [retransmitEvent, hne], h.lastAck⟩, hnone⟩
  | kick =>
    rw [step, Option.some.injEq] at hstep
    subst hstep
    exact ⟨⟨⟨h.kept.listed, h.kept.ready, h.kept.upcoming⟩, h.needAck, h.sent, h.pending,
      h.blocks, h.timer, h.lastAck⟩, hnone⟩
  | pull =>
    rw [step, Option.some.injEq] at hstep
    subst hstep
    exact ⟨⟨⟨h.kept.listed, h.kept.ready, h.kept.upcoming⟩, h.needAck, h.sent, h.pending,
      h.blocks, h.timer, h.lastAck⟩, hnone⟩

/-! ## The receive window -/

/-- The bytes without acknowledgment are within the receive window, or one block; or no block was
built since those in `before`, and these are what is left of them. -/
def Windowed (before : List Bytes) (sq : SerialQueue) : Prop :=
  sq.receiveWindow ≠ 0 →
    sq.sentBytes ≤ max MESSAGE_MAX sq.receiveWindow ∨ sq.sentQueue <:+ before

/-- The window is the same, and of the blocks only the last ones are left. -/
structure Shrunk (sq sq' : SerialQueue) : Prop where
  receiveWindow : sq'.receiveWindow = sq.receiveWindow
  sentQueue : sq'.sentQueue <:+ sq.sentQueue

/-- Nothing has changed. -/
theorem Shrunk.refl (sq : SerialQueue) : Shrunk sq sq := ⟨rfl, List.suffix_rfl⟩

/-- Fewer blocks are fewer bytes. -/
theorem Shrunk.sentBytes_le {sq sq' : SerialQueue} (h : Shrunk sq sq') :
    sq'.sentBytes ≤ sq.sentBytes := by
  obtain ⟨a, ha⟩ := h.sentQueue
  unfold sentBytes
  rw [← ha, List.map_append, List.sum_append]
  omega

/-- What is acknowledged makes the window no smaller. -/
theorem Windowed.mono {before : List Bytes} {sq sq' : SerialQueue} (h : Windowed before sq)
    (hshrunk : Shrunk sq sq') : Windowed before sq' := by
  intro hwindow
  rw [hshrunk.receiveWindow] at hwindow ⊢
  rcases h hwindow with hbytes | hsuffix
  · exact .inl (hshrunk.sentBytes_le.trans hbytes)
  · exact .inr (hshrunk.sentQueue.trans hsuffix)

/-- A message acknowledges blocks, or none. -/
theorem handleMessage_shrunk {sq : SerialQueue} (h : Accounts sq) (msg : Bytes) :
    Shrunk sq (sq.handleMessage msg) := by
  obtain ⟨-, -, hwindow, ⟨-, -, hsame⟩ | ⟨-, -, -, hsent, -⟩⟩ := handleMessage_spec h msg
  · rw [hsame]
    exact .refl sq
  · exact ⟨hwindow, hsent ▸ List.drop_suffix _ _⟩

/-- Nor do bytes do anything else. -/
theorem inputLoop_shrunk (fuel : Nat) {sq : SerialQueue} (h : Accounts sq) :
    Shrunk sq (inputLoop fuel sq) := by
  induction fuel generalizing sq with
  | zero => exact .refl sq
  | succ fuel ih =>
    rw [inputLoop]
    dsimp only
    have hsync := h.input sq.inputBuf (msgblockCheck sq.needSync sq.inputBuf).1
    split
    · exact ⟨rfl, List.suffix_rfl⟩
    split
    · have hmsg := handleMessage_shrunk hsync
        (sq.inputBuf.take (msgblockCheck sq.needSync sq.inputBuf).2.toNat)
      have hacc := (handleMessage_spec hsync
        (sq.inputBuf.take (msgblockCheck sq.needSync sq.inputBuf).2.toNat)).1
      exact ⟨(ih (hacc.input _ _)).receiveWindow.trans hmsg.receiveWindow,
        (ih (hacc.input _ _)).sentQueue.trans hmsg.sentQueue⟩
    · exact ⟨(ih (h.input _ _)).receiveWindow, (ih (h.input _ _)).sentQueue⟩

/-- A block is built only when there is room for it. -/
theorem buildAndSendCommand_windowed {sq : SerialQueue} (h : Accounts sq)
    (hopen : ¬sq.waitsForAck) (before : List Bytes) :
    Windowed before sq.buildAndSendCommand.1 := by
  obtain ⟨-, hlength⟩ := buildAndSendCommand_fits h.kept
  obtain ⟨-, hbuilt⟩ := buildAndSendCommand_spec h hopen
  intro hwindow
  rw [hbuilt.receiveWindow] at hwindow ⊢
  refine .inl ?_
  rw [sentBytes_buildAndSendCommand]
  unfold waitsForAck at hopen
  rw [not_or] at hopen
  have hsent := h.sent
  have hneed := h.needAck
  have hack := h.lastAck
  by_cases hnil : sq.sentQueue = []
  · have hzero : sq.sentBytes = 0 := by simp [sentBytes, hnil]
    omega
  · have hpos := List.length_pos_iff.mpr hnil
    have hle : sq.needAckBytes + MESSAGE_MAX +
        (if sq.lastAckSeq < sq.receiveSeq then sq.lastAckBytes else 0) ≤ sq.receiveWindow := by
      by_contra hgt
      exact hopen.2 ⟨by omega, hwindow, not_le.mp hgt⟩
    split at hle <;> omega

/-- **The loop of `command_event`** keeps within the window. -/
theorem commandLoop_windowed (clocks : List Clock) {sq : SerialQueue} (h : Accounts sq)
    {before : List Bytes} (hbefore : Windowed before sq) :
    Windowed before (commandLoop clocks sq).1 := by
  induction clocks generalizing sq with
  | nil => exact hbefore
  | cons clock clocks ih =>
    obtain ⟨haccounts, hbuilt, hopen⟩ := checkSendCommand_spec h clock
    have hchecked : Windowed before (sq.checkSendCommand clock).1 :=
      hbefore.mono ⟨hbuilt.receiveWindow, by simp [hbuilt.sentQueue]⟩
    rw [commandLoop]
    dsimp only
    split
    · exact hchecked
    · next hnow =>
      have hopen' := hopen (not_not.mp hnow)
      exact ih (buildAndSendCommand_spec haccounts hopen').1
        (buildAndSendCommand_windowed haccounts hopen' before)

/-- **One event keeps within the window**, unless it sets it. -/
theorem step_windowed {sq sq' : SerialQueue} (h : Accounts sq) {before : List Bytes}
    (hbefore : Windowed before sq) {e : Event} (he : ∀ w, e ≠ .setReceiveWindow w)
    (hstep : sq.step e = some sq') :
    sq'.receiveWindow = sq.receiveWindow ∧ Windowed before sq' := by
  have hshrunk : ∀ {sq' : SerialQueue}, Shrunk sq sq' →
      sq'.receiveWindow = sq.receiveWindow ∧ Windowed before sq' := fun h =>
    ⟨h.receiveWindow, hbefore.mono h⟩
  cases e with
  | setReceiveWindow w => exact absurd rfl (he w)
  | send id msgs =>
    rw [step, Option.some.injEq] at hstep
    subst hstep
    unfold sendBatch
    dsimp only
    split <;> exact hshrunk ⟨rfl, List.suffix_rfl⟩
  | input data =>
    rw [step, Option.some.injEq] at hstep
    subst hstep
    have hinput := inputLoop_shrunk ((sq.inputBuf ++ data).length + 1)
      (h.input (sq.inputBuf ++ data) sq.needSync)
    exact hshrunk ⟨hinput.receiveWindow, hinput.sentQueue⟩
  | command clock =>
    rw [step] at hstep
    split at hstep
    · cases hstep
    · rw [Option.some.injEq] at hstep
      subst hstep
      exact ⟨(commandEvent_spec clock h).2.1.receiveWindow, commandLoop_windowed _ h hbefore⟩
  | retransmit =>
    rw [step] at hstep
    split at hstep
    · cases hstep
    · rw [Option.some.injEq] at hstep
      subst hstep
      exact hshrunk ⟨rfl, List.suffix_rfl⟩
  | kick =>
    rw [step, Option.some.injEq] at hstep
    subst hstep
    exact hshrunk ⟨rfl, List.suffix_rfl⟩
  | pull =>
    rw [step, Option.some.injEq] at hstep
    subst hstep
    exact hshrunk ⟨rfl, List.suffix_rfl⟩

/-! ## A short run -/

/-- A command of one byte that is to be notified of. -/
def shortMessage : QueueMessage := ⟨[5], 0, 0, 7, by decide, by decide⟩

/-- Two commands go into one block; the one that is not due yet stays. -/
def shortRun : List Event :=
  [.send 1 [shortMessage, ⟨[6, 1], 10, 0, 0, by decide, by decide⟩,
      ⟨[4], 90, 0, 0, by decide, by decide⟩],
    .kick, .command fun _ => ⟨50, 0, false, 0⟩, .retransmit]

/-- The block that is built. -/
theorem shortRun_builds : ∃ sq, Transition.run step alloc shortRun = some sq ∧
    sq.sentQueue = [[8, 17, 5, 6, 1, 201, 86, 126]] :=
  Option.map_eq_some_iff.mp (by decide +kernel)

/-! ## Every run -/

/-- A run without another setting of the window keeps within it. -/
theorem windowed_run {before : List Bytes} {sq sq' : SerialQueue} {events : List Event}
    (h : Accounts sq) (hbefore : Windowed before sq) (hnone : ∀ w, .setReceiveWindow w ∉ events)
    (hrun : Transition.run step sq events = some sq') :
    sq'.receiveWindow = sq.receiveWindow ∧ Windowed before sq' := by
  induction events generalizing sq with
  | nil =>
    rw [Transition.run_nil, Option.some.injEq] at hrun
    exact hrun ▸ ⟨rfl, hbefore⟩
  | cons e events ih =>
    obtain ⟨t, ht, hrest⟩ := Transition.run_cons_eq_some.mp hrun
    have he : ∀ w, e ≠ .setReceiveWindow w := fun w heq =>
      hnone w (heq ▸ List.mem_cons_self)
    obtain ⟨hwindow, hkept⟩ := step_windowed h hbefore he ht
    obtain ⟨hwindow', hkept'⟩ := ih (step_spec h e ht).1 hkept
      (fun w hw => hnone w (List.mem_cons_of_mem e hw)) hrest
    exact ⟨hwindow'.trans hwindow, hkept'⟩

/-- **The books are right in every run**, whatever the other end of the line sends and whenever
the timers go off; and since a receive window was set, no block was built beyond it. -/
theorem accounts_run {sq : SerialQueue} {events : List Event}
    (hrun : Transition.run step alloc events = some sq) :
    Accounts sq ∧ ∀ before w after sq₀, events = before ++ .setReceiveWindow w :: after →
      (∀ w', .setReceiveWindow w' ∉ after) → Transition.run step alloc before = some sq₀ →
      sq.receiveWindow = w ∧ Windowed sq₀.sentQueue sq := by
  have hall : ∀ {sq : SerialQueue} {events : List Event},
      Transition.run step alloc events = some sq → Accounts sq := fun hrun =>
    Transition.run_invariant (fun _ e _ h hstep => (step_spec h e hstep).1) accounts_alloc hrun
  refine ⟨hall hrun, fun before w after sq₀ hevents hnone hbefore => ?_⟩
  rw [hevents] at hrun
  obtain ⟨sq₁, hsq₁, hrest⟩ := Transition.run_append_eq_some.mp hrun
  have hsame : sq₁ = sq₀ := Option.some.inj (hsq₁.symm.trans hbefore)
  obtain ⟨t, ht, hafter⟩ := Transition.run_cons_eq_some.mp hrest
  have hset : t = sq₁.setReceiveWindow w := (Option.some.inj ht).symm
  have hstart : Windowed sq₀.sentQueue t := fun _ => by
    rw [hset, hsame]
    exact .inr List.suffix_rfl
  have haccounts : Accounts t := (step_spec (hall hsq₁) _ ht).1
  obtain ⟨hwindow, hkept⟩ := windowed_run haccounts hstart hnone hafter
  exact ⟨hwindow.trans (by rw [hset]; rfl), hkept⟩

/-- With one block under way the window is set so small that the next message has to wait. -/
def windowRun : List Event :=
  [.send 1 [shortMessage], .kick, .command fun _ => ⟨50, 0, false, 0⟩, .setReceiveWindow 69,
    .send 1 [shortMessage], .kick, .command fun _ => ⟨50, 0, false, 0⟩]

/-- The message that has to wait. -/
theorem windowRun_waits : ∃ sq, Transition.run step alloc windowRun = some sq ∧
    (sq.sentQueue.length, queued 1 sq.pendingQueues) = (1, [shortMessage]) :=
  Option.map_eq_some_iff.mp (by decide +kernel)

/-- The message that waits, in the books. -/
theorem accounts_run_window : ∃ sq : SerialQueue,
    (sq.sentQueue.length, queued 1 sq.pendingQueues) = (1, [shortMessage]) ∧ Accounts sq ∧
    ∀ before w after sq₀, windowRun = before ++ .setReceiveWindow w :: after →
      (∀ w', .setReceiveWindow w' ∉ after) → Transition.run step alloc before = some sq₀ →
      sq.receiveWindow = w ∧ Windowed sq₀.sentQueue sq := by
  obtain ⟨sq, hrun, hwaits⟩ := windowRun_waits
  exact ⟨sq, hwaits, accounts_run hrun⟩

/-- The messages that a run puts into a queue. -/
def submittedAll (id : Nat) (events : List Event) : List QueueMessage :=
  events.flatMap (·.submitted id)

/-- The messages that a run puts into blocks. -/
def builtAll : SerialQueue → List Event → List (Nat × QueueMessage)
  | _, [] => []
  | sq, e :: events =>
    (e.blocks sq).flatMap (·.2) ++ (sq.step e).elim [] fun sq' => builtAll sq' events

/-- **The messages of a queue are sent in their order**: what has come in is what is in blocks,
and behind it what still waits. -/
theorem queue_order {sq : SerialQueue} {events : List Event}
    (hrun : Transition.run step alloc events = some sq) (id : Nat) :
    submittedAll id events =
      ofQueue id (builtAll alloc events) ++ queued id sq.pendingQueues := by
  have hall : ∀ (events : List Event) (s : SerialQueue), Accounts s →
      Transition.run step s events = some sq →
      queued id s.pendingQueues ++ submittedAll id events =
        ofQueue id (builtAll s events) ++ queued id sq.pendingQueues := by
    intro events
    induction events with
    | nil =>
      intro s _ hs
      rw [Transition.run_nil, Option.some.injEq] at hs
      simp [hs, submittedAll, builtAll, ofQueue]
    | cons e events ih =>
      intro s hacc hs
      obtain ⟨t, ht, hrest⟩ := Transition.run_cons_eq_some.mp hs
      obtain ⟨hacc', horder⟩ := step_spec hacc e ht
      rw [submittedAll, List.flatMap_cons, ← List.append_assoc, horder id, List.append_assoc,
        ← submittedAll, ih t hacc' hrest, builtAll, ht, Option.elim_some, ofQueue_append,
        List.append_assoc]
  exact hall events _ accounts_alloc hrun

/-- Two commands in one block, one that waits. -/
theorem queue_order_short :
    ∃ sq : SerialQueue, sq.sentQueue = [[8, 17, 5, 6, 1, 201, 86, 126]] ∧
      submittedAll 1 shortRun =
        ofQueue 1 (builtAll alloc shortRun) ++ queued 1 sq.pendingQueues := by
  obtain ⟨sq, hrun, hsent⟩ := shortRun_builds
  exact ⟨sq, hsent, queue_order hrun 1⟩

/-- What the clock estimate says in a run does not go beyond `limit`. -/
def Event.Until (limit : Nat) : Event → Prop
  | .command clock => ∀ i, (clock i).ackClock ≤ limit
  | _ => True

/-- What is ready when something happens could be sent, and so could what is in blocks. -/
theorem step_due {limit : Nat} {sq sq' : SerialQueue} (hacc : Accounts sq)
    (h : Due limit sq.pendingQueues) (e : Event) (he : e.Until limit)
    (hstep : sq.step e = some sq') :
    Due limit sq'.pendingQueues ∧
      ∀ b ∈ e.blocks sq, ∀ m ∈ b.2, m.2.minClock ≤ limit := by
  cases e with
  | setReceiveWindow receiveWindow =>
    rw [step, Option.some.injEq] at hstep
    subst hstep
    exact ⟨h, by simp [Event.blocks]⟩
  | send id msgs =>
    rw [step, Option.some.injEq] at hstep
    subst hstep
    refine ⟨?_, by simp [Event.blocks]⟩
    unfold sendBatch
    dsimp only
    split
    · exact h
    · exact h.joinUpcoming id _
  | input data =>
    rw [step, Option.some.injEq] at hstep
    subst hstep
    have hdata := hacc.input (sq.inputBuf ++ data) sq.needSync
    have hpending : (sq.inputEvent data).pendingQueues = sq.pendingQueues :=
      (inputLoop_spec ((sq.inputBuf ++ data).length + 1) hdata).2
    rw [hpending]
    exact ⟨h, by simp [Event.blocks]⟩
  | command clock =>
    rw [step] at hstep
    split at hstep
    · cases hstep
    · rw [Option.some.injEq] at hstep
      subst hstep
      refine commandLoop_due _ h fun c hc => ?_
      obtain ⟨i, -, rfl⟩ := List.mem_map.mp hc
      exact he i
  | retransmit =>
    rw [step] at hstep
    split at hstep
    · cases hstep
    · rw [Option.some.injEq] at hstep
      subst hstep
      exact ⟨h, by simp [Event.blocks]⟩
  | kick =>
    rw [step, Option.some.injEq] at hstep
    subst hstep
    exact ⟨h, by simp [Event.blocks]⟩
  | pull =>
    rw [step, Option.some.injEq] at hstep
    subst hstep
    exact ⟨h, by simp [Event.blocks]⟩

/-- **No message is sent before its `min_clock`**: by the clock estimates of the run so far. -/
theorem none_early (limit : Nat) {sq : SerialQueue} {events : List Event}
    (hrun : Transition.run step alloc events = some sq)
    (huntil : ∀ e ∈ events, e.Until limit) :
    ∀ m ∈ builtAll alloc events, m.2.minClock ≤ limit := by
  have hall : ∀ (events : List Event) (s : SerialQueue), Accounts s → Due limit s.pendingQueues →
      (∀ e ∈ events, e.Until limit) → Transition.run step s events = some sq →
      ∀ m ∈ builtAll s events, m.2.minClock ≤ limit := by
    intro events
    induction events with
    | nil => simp [builtAll]
    | cons e events ih =>
      intro s hacc hdue huntil hs m hm
      obtain ⟨t, ht, hrest⟩ := Transition.run_cons_eq_some.mp hs
      obtain ⟨hdue', hblocks⟩ := step_due hacc hdue e (huntil e List.mem_cons_self) ht
      rw [builtAll, ht, Option.elim_some] at hm
      rcases List.mem_append.mp hm with hm | hm
      · obtain ⟨b, hb, hmb⟩ := List.mem_flatMap.mp hm
        exact hblocks b hb m hmb
      · exact ih t (step_spec hacc e ht).1 hdue'
          (fun e' he' => huntil e' (List.mem_cons_of_mem e he')) hrest m hm
  exact hall events _ accounts_alloc (by simp [Due, alloc]) huntil hrun

/-- The clock says 50; the command for 90 waits. -/
theorem none_early_short :
    ∃ sq : SerialQueue, sq.sentQueue = [[8, 17, 5, 6, 1, 201, 86, 126]] ∧
      ∀ m ∈ builtAll alloc shortRun, m.2.minClock ≤ 50 := by
  obtain ⟨sq, hrun, hsent⟩ := shortRun_builds
  have huntil : ∀ e ∈ shortRun, e.Until 50 := by simp [shortRun, Event.Until]
  exact ⟨sq, hsent, none_early 50 hrun huntil⟩

end Cream.Model.SerialQueue
