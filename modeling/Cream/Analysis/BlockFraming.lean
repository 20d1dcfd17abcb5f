import Cream.Analysis.BlockChecksum
import Cream.Model.Command

/-!
# Blocks in a stream

The firmware gets bytes by interrupts, and its console looks for blocks in what it has. In
whatever order the interrupts and the runs of the task come, the console goes along the stream of
the bytes that got into its buffer and comes upon what the byte-by-byte receiver of the deframing
library finds there (`follows_run`). A block with a command that shuts the machine down is left in
the buffer; when the task is woken the next time, it refuses the block, and so acknowledges it.
While the task sleeps there is no block for it to find but one it has left (`asleep_no_block`).
So blocks that are written one after the other, numbered as the firmware expects them, are all
run and acknowledged (`blocks_dispatched`), and whatever the console was in the middle of, from
the end of a block on it is in step (`console_resyncs`).

SOURCE: src/app/src/main/klipper/src/command.c:268-326 (`command_find_block`)
SOURCE: src/app/src/main/klipper/src/generic/serial_irq.c:27-90 (`serial_rx_byte`,
`console_pop_input`, `console_task`)
SOURCE: src/app/src/main/klipper/src/sched.c:218-252, 299-307, 333-352 (`run_tasks`,
`sched_shutdown`, `sched_main`)
-/

set_option autoImplicit false

namespace Cream.Model.Msgblock

open Cream.Library PercentCoding
open Deframing (Verdict)

/-- While more is to come, less than the longest block is there. -/
theorem verdict_wait {buf : Bytes} (h : verdict buf = .needMoreData) :
    buf.length < MESSAGE_MAX := by
  unfold verdict at h
  dsimp only at h
  split at h
  · next hshort => exact hshort.trans (by decide)
  split at h
  · cases h
  next hlen =>
  split at h
  · cases h
  split at h
  · next hshort => omega
  split at h
  · cases h
  split at h
  · cases h
  · cases h

/-- More bytes change nothing, once there are enough. -/
theorem verdict_append {buf : Bytes} (more : Bytes) (h : verdict buf ≠ .needMoreData) :
    verdict (buf ++ more) = verdict buf := by
  cases hv : verdict buf with
  | needMoreData => exact absurd hv h
  | block n =>
    obtain ⟨seq, payload, rest, rfl, hdest, hlen, hn⟩ := verdict_eq_block_iff.mp hv
    exact verdict_eq_block_iff.mpr ⟨seq, payload, rest ++ more, List.append_assoc _ _ _, hdest,
      hlen, hn⟩
  | error =>
    have hget : ∀ i < buf.length, (buf ++ more).getD i 0 = buf.getD i 0 := fun i hi =>
      List.getD_append _ _ _ _ hi
    unfold verdict at hv ⊢
    dsimp only at hv ⊢
    split at hv
    · cases hv
    next hlong =>
    rw [if_neg (by rw [List.length_append]; omega)]
    have hmin : MESSAGE_MIN = 5 := rfl
    have h0 := hget MESSAGE_POS_LEN (by unfold MESSAGE_POS_LEN; omega)
    have h1 := hget MESSAGE_POS_SEQ (by unfold MESSAGE_POS_SEQ; omega)
    simp only [h0, h1]
    split at hv
    · next hlen => rw [if_pos hlen]
    next hlen =>
    rw [if_neg hlen]
    split at hv
    · next hdest => rw [if_pos hdest]
    next hdest =>
    rw [if_neg hdest]
    split at hv
    · cases hv
    next hwhole =>
    rw [if_neg (by rw [List.length_append]; omega)]
    have hlen' : (buf.getD MESSAGE_POS_LEN 0).toNat ≤ buf.length := by omega
    rw [hget _ (by unfold MESSAGE_TRAILER_SYNC; omega), hget _ (by unfold MESSAGE_TRAILER_CRC; omega),
      hget _ (by unfold MESSAGE_TRAILER_CRC; omega), List.take_append_of_le_length (by omega)]
    exact hv

/-- The blocks as a format of frames. -/
def format : Deframing.Format UInt8 where
  sync := MESSAGE_SYNC
  verdict := verdict
  verdict_nil := by decide
  block_le := by
    intro buf n h
    obtain ⟨seq, payload, rest, rfl, -, -, rfl⟩ := verdict_eq_block_iff.mp h
    rw [List.length_append, length_frame]
    unfold MESSAGE_MIN
    omega
  stable more h := verdict_append more h
  maxLength := MESSAGE_MAX
  wait_lt := verdict_wait

end Cream.Model.Msgblock

namespace Cream.Model.Command

open Cream.Library PercentCoding Msgblock
open Deframing (Verdict Found drain)

/-! ## The console -/

/-- What the console makes of a block, or of bytes that are none. -/
def handle (r : Receiver) : Found UInt8 → Receiver × List Output
  | .frame block =>
    if block.getD MESSAGE_POS_SEQ 0 ≠ r.nextSequence then
      ({ r with needValid := false }, [.acknak r.nextSequence])
    else
      ({ r with needValid := false, nextSequence := following r.nextSequence },
        [.dispatched block, .acknak (following r.nextSequence)])
  | .bad first =>
    if first = MESSAGE_SYNC ∨ r.needValid then (r, [])
    else ({ r with needValid := true }, [.acknak r.nextSequence])

/-- What the console makes of several things it comes upon. -/
def handleAll : Receiver → List (Found UInt8) → Receiver × List Output
  | r, [] => (r, [])
  | r, x :: found =>
    ((handleAll (handle r x).1 found).1, (handle r x).2 ++ (handleAll (handle r x).1 found).2)

/-- What is found first is handled first. -/
theorem handleAll_append (r : Receiver) (a b : List (Found UInt8)) :
    handleAll r (a ++ b) = ((handleAll (handleAll r a).1 b).1,
      (handleAll r a).2 ++ (handleAll (handleAll r a).1 b).2) := by
  induction a generalizing r with
  | nil => rfl
  | cons x a ih =>
    rw [List.cons_append, handleAll, handleAll, ih, List.append_assoc]

/-- While a synchronisation byte is looked for nothing is answered. -/
def Quiet (r : Receiver) : Prop := r.needSync = true → r.needValid = true

/-- Handling does not look at whether a synchronisation byte is looked for. -/
theorem handle_with (r : Receiver) (b : Bool) (x : Found UInt8) :
    handle { r with needSync := b } x =
      ({ (handle r x).1 with needSync := b }, (handle r x).2) := by
  cases x with
  | frame block =>
    simp only [handle]
    split <;> rfl
  | bad first =>
    simp only [handle]
    split <;> rfl

/-- What is answered does not depend on whether a synchronisation byte is looked for. -/
theorem handleAll_with (r : Receiver) (b : Bool) (found : List (Found UInt8)) :
    handleAll { r with needSync := b } found =
      ({ (handleAll r found).1 with needSync := b }, (handleAll r found).2) := by
  induction found generalizing r with
  | nil => rfl
  | cons x found ih =>
    simp only [handleAll, handle_with]
    rw [ih]

/-- Nor does it change it. -/
theorem needSync_handle (r : Receiver) (x : Found UInt8) :
    (handle r x).1.needSync = r.needSync :=
  congrArg (·.1.needSync) (handle_with r r.needSync x)

/-- What is done, but for requests for the bootloader. -/
def spoken (out : List Output) : List Output := out.filter (· ≠ .bootloaderRequest)

/-- What is done one after the other. -/
@[simp] theorem spoken_append (a b : List Output) : spoken (a ++ b) = spoken a ++ spoken b :=
  List.filter_append ..

/-- Without a request nothing is left out. -/
theorem spoken_eq {out : List Output} (h : Output.bootloaderRequest ∉ out) : spoken out = out := by
  refine List.filter_eq_self.mpr fun x hx => decide_eq_true ?_
  rintro rfl
  exact h hx

/-- Not all that was found are blocks, or a synchronisation byte was looked for. -/
def Noisy (r : Receiver) (found : List (Found UInt8)) : Prop :=
  r.needSync = true ∨ ∃ b, .bad b ∈ found

/-- From a buffer to what is left of it: what was found on the way, and what was done. -/
structure Reads (r : Receiver) (buf : Bytes) (r' : Receiver) (buf' : Bytes)
    (found : List (Found UInt8)) (out : List Output) : Prop where
  drain_eq : drain format r.needSync buf = (drain format r'.needSync buf').append found
  handled : handleAll r found = ({ r' with needSync := r.needSync }, spoken out)
  quiet : Quiet r'
  suffix : buf' <:+ buf
  searching : r'.needSync = true → Noisy r found
  requested : .bootloaderRequest ∈ out → Noisy r found

/-- Nothing was read. -/
theorem Reads.refl {r : Receiver} (h : Quiet r) (buf : Bytes) : Reads r buf r buf [] [] where
  drain_eq := rfl
  handled := rfl
  quiet := h
  suffix := List.suffix_rfl
  searching := .inl
  requested hmem := absurd hmem List.not_mem_nil

/-- What was read one after the other. -/
theorem Reads.trans {r₁ r₂ r₃ : Receiver} {b₁ b₂ b₃ : Bytes} {f g : List (Found UInt8)}
    {o p : List Output} (h : Reads r₁ b₁ r₂ b₂ f o) (h' : Reads r₂ b₂ r₃ b₃ g p) :
    Reads r₁ b₁ r₃ b₃ (f ++ g) (o ++ p) := by
  -- what is noisy further on is noisy from the start
  have hfirst : Noisy r₁ f → Noisy r₁ (f ++ g) := by
    rintro (hsync | ⟨b, hb⟩)
    · exact .inl hsync
    · exact .inr ⟨b, List.mem_append_left _ hb⟩
  have hnoisy : Noisy r₂ g → Noisy r₁ (f ++ g) := by
    rintro (hsync | ⟨b, hb⟩)
    · exact hfirst (h.searching hsync)
    · exact .inr ⟨b, List.mem_append_right _ hb⟩
  refine ⟨?_, ?_, h'.quiet, h'.suffix.trans h.suffix, fun hsync => hnoisy (h'.searching hsync),
    fun hmem => ?_⟩
  · rw [h.drain_eq, h'.drain_eq]
    simp [Deframing.Drained.append]
  · rw [handleAll_append, h.handled, handleAll_with, h'.handled, spoken_append]
  · rcases List.mem_append.mp hmem with hmem | hmem
    · exact hfirst (h.requested hmem)
    · exact hnoisy (h'.requested hmem)

/-- Bytes that come later stay where they are. -/
theorem Reads.append {r r' : Receiver} {buf buf' : Bytes} {found : List (Found UInt8)}
    {out : List Output} (h : Reads r buf r' buf' found out) (more : Bytes) :
    Reads r (buf ++ more) r' (buf' ++ more) found out := by
  refine ⟨?_, h.handled, h.quiet, ?_, h.searching, h.requested⟩
  · rw [Deframing.drain_append, Deframing.drain_append r'.needSync, h.drain_eq]
    simp [Deframing.Drained.append]
  · obtain ⟨before, hbefore⟩ := h.suffix
    exact ⟨before, by rw [← hbefore, List.append_assoc]⟩

/-- What is left when a synchronisation byte was looked for at one go. -/
def searched (buf : Bytes) : Bool × Bytes :=
  match buf.findIdx? (· == MESSAGE_SYNC) with
  | some i => (false, buf.drop (i + 1))
  | none => (true, [])

/-- The search for a synchronisation byte comes first. -/
theorem drain_searched (buf : Bytes) :
    drain format true buf = drain format (searched buf).1 (searched buf).2 := by
  rw [Deframing.drain_search]
  unfold searched
  have hsync : format.sync = MESSAGE_SYNC := rfl
  rw [hsync]
  cases buf.findIdx? (· == MESSAGE_SYNC) with
  | none => exact Deframing.drain_true_nil.symm
  | some i => rfl

/-- A run that discards bytes. -/
theorem discard_eq (r : Receiver) (buf : Bytes) :
    discard { r with needSync := true } buf =
      ⟨⟨(searched buf).1, true, r.nextSequence⟩, -1, buf.length - (searched buf).2.length,
        !r.needValid⟩ := by
  unfold discard searched
  cases hfind : buf.findIdx? (· == MESSAGE_SYNC) with
  | none => simp
  | some i =>
    have hi := (List.findIdx?_eq_some_iff_getElem.mp hfind).1
    simp
    omega

/-- What it leaves is the end of the buffer. -/
theorem drop_searched (buf : Bytes) :
    buf.drop (buf.length - (searched buf).2.length) = (searched buf).2 := by
  unfold searched
  cases hfind : buf.findIdx? (· == MESSAGE_SYNC) with
  | none => simp
  | some i =>
    have hi := (List.findIdx?_eq_some_iff_getElem.mp hfind).1
    simp only [List.length_drop]
    congr 1
    omega

/-- A block is no request for the bootloader: the message has a wrong checksum. -/
theorem requestsBootloader_block {c : Console} {n : Nat} (h : verdict c.receiveBuf = .block n)
    (f : Find) : requestsBootloader c f = false := by
  rw [Bool.eq_false_iff]
  intro hrequest
  simp only [requestsBootloader, Bool.and_eq_true, decide_eq_true_eq] at hrequest
  have herror : verdict bootloaderMessage = .error := by decide +kernel
  have hread : verdict bootloaderMessage ≠ .needMoreData := by
    rw [herror]
    exact Verdict.noConfusion
  have happend := verdict_append (c.receiveBuf.drop 32) hread
  rw [← hrequest.2, List.take_append_drop, hrequest.2, herror, h] at happend
  cases happend

/-- But for a request for the bootloader, what is done when nothing is run is to send a message
or not. -/
theorem spoken_answer {c : Console} {f : Find} (h : f.ret < 0) :
    spoken (answer c f) = if f.nak then [.acknak f.receiver.nextSequence] else [] := by
  have hret : ¬f.ret > 0 := by omega
  unfold answer
  rw [if_neg hret, spoken_append]
  cases f.nak <;> cases requestsBootloader c f <;> simp [spoken]

/-- **A block is found.** -/
theorem findBlock_block {c : Console} {n : Nat} (hsync : c.receiver.needSync = false)
    (h : verdict c.receiveBuf = .block n) :
    (findBlock c.receiver c.receiveBuf).ret ≠ 0 ∧
      (findBlock c.receiver c.receiveBuf).popCount = n ∧
      (findBlock c.receiver c.receiveBuf).receiver =
        (handle c.receiver (.frame (c.receiveBuf.take n))).1 ∧
      answer c (findBlock c.receiver c.receiveBuf) =
        (handle c.receiver (.frame (c.receiveBuf.take n))).2 := by
  have hseq : (c.receiveBuf.take n).getD MESSAGE_POS_SEQ 0 =
      c.receiveBuf.getD MESSAGE_POS_SEQ 0 := by
    obtain ⟨seq, payload, rest, hbuf, -, -, rfl⟩ := verdict_eq_block_iff.mp h
    rw [hbuf, ← length_frame seq payload, List.take_left]
    rfl
  simp only [findBlock, answer, handle, hseq, hsync, h, Bool.false_eq_true, and_false, if_false,
    requestsBootloader_block h]
  generalize c.receiveBuf.getD MESSAGE_POS_SEQ 0 = seq
  by_cases hnext : seq = c.receiver.nextSequence
  · simp [hnext]
  · simp [hnext]

/-- **Bytes are found that are no block.** -/
theorem findBlock_error {c : Console} {b : UInt8} {buf : Bytes}
    (hsync : c.receiver.needSync = false) (hbuf : c.receiveBuf = b :: buf)
    (h : verdict (b :: buf) = .error) :
    (findBlock c.receiver (b :: buf)).ret < 0 ∧
      (findBlock c.receiver (b :: buf)).popCount ≤ buf.length + 1 ∧
      ∃ b', (findBlock c.receiver (b :: buf)).receiver =
          { (handle c.receiver (.bad b)).1 with needSync := b' } ∧
        spoken (answer c (findBlock c.receiver (b :: buf))) = (handle c.receiver (.bad b)).2 ∧
        drain format (b ≠ MESSAGE_SYNC) buf =
          drain format b' ((b :: buf).drop (findBlock c.receiver (b :: buf)).popCount) ∧
        (b' = true → (handle c.receiver (.bad b)).1.needValid = true) := by
  obtain ⟨⟨needSync, needValid, nextSequence⟩, receiveBuf, woken, have'⟩ := c
  cases hsync
  cases hbuf
  by_cases hb : b = MESSAGE_SYNC
  · subst hb
    have hfind : findBlock ⟨false, needValid, nextSequence⟩ (MESSAGE_SYNC :: buf) =
        ⟨⟨false, needValid, nextSequence⟩, -1, 1, false⟩ := by simp [findBlock, h]
    dsimp only
    rw [hfind]
    refine ⟨by simp, by simp, false, by simp [handle], ?_, by simp, by simp⟩
    rw [spoken_answer (by simp)]
    simp [handle]
  · have hfind : findBlock ⟨false, needValid, nextSequence⟩ (b :: buf) =
        discard ⟨true, needValid, nextSequence⟩ (b :: buf) := by
      simp [findBlock, h, hb]
    have hdiscard := discard_eq ⟨true, needValid, nextSequence⟩ (b :: buf)
    dsimp only at hdiscard ⊢
    rw [hfind, hdiscard]
    refine ⟨by simp, by simp, (searched (b :: buf)).1, ?_, ?_, ?_, fun _ => ?_⟩
    · cases needValid <;> simp [handle, hb]
    · rw [spoken_answer (by simp)]
      cases needValid <;> simp [handle, hb]
    · rw [drop_searched, ← drain_searched, Deframing.drain_true_cons]
      rfl
    · cases needValid <;> simp [handle, hb]

/-- Nothing is found in these bytes, and nothing is discarded. -/
def Still (r : Receiver) (buf : Bytes) : Prop :=
  drain format r.needSync buf = ⟨[], r.needSync, buf⟩

/-- An empty buffer is waited for. -/
theorem still_nil (r : Receiver) : Still r [] := by
  unfold Still
  cases r.needSync with
  | true => exact Deframing.drain_true_nil
  | false => exact Deframing.drain_wait format.verdict_nil

/-- **What is found in a buffer.** -/
theorem findBlock_spec {c : Console} (hquiet : Quiet c.receiver) :
    ((findBlock c.receiver c.receiveBuf).ret = 0 ∧
      (findBlock c.receiver c.receiveBuf).receiver = c.receiver ∧ Still c.receiver c.receiveBuf) ∨
      ((findBlock c.receiver c.receiveBuf).ret ≠ 0 ∧
        (findBlock c.receiver c.receiveBuf).popCount ≤ c.receiveBuf.length ∧
        ∃ found, Reads c.receiver c.receiveBuf (findBlock c.receiver c.receiveBuf).receiver
          (c.receiveBuf.drop (findBlock c.receiver c.receiveBuf).popCount) found
          (answer c (findBlock c.receiver c.receiveBuf))) := by
  cases hsync : c.receiver.needSync with
  | true =>
    have hvalid : c.receiver.needValid = true := hquiet hsync
    cases hbuf : c.receiveBuf with
    | nil => exact .inl ⟨by simp [findBlock, verdict, MESSAGE_MIN],
        by simp [findBlock, verdict, MESSAGE_MIN], still_nil c.receiver⟩
    | cons b buf =>
      have hdiscard := discard_eq c.receiver (b :: buf)
      have hr : { c.receiver with needSync := true } = c.receiver := by rw [← hsync]
      rw [hr] at hdiscard
      have hfind : findBlock c.receiver (b :: buf) = discard c.receiver (b :: buf) :=
        if_pos ⟨by simp, hsync⟩
      rw [hfind, hdiscard]
      refine .inr ⟨by simp, by simp, [], ?_, ?_, fun _ => rfl, List.drop_suffix _ _,
        fun _ => .inl hsync, fun _ => .inl hsync⟩
      · rw [drop_searched, hsync, drain_searched]
        rfl
      · have hr : (⟨c.receiver.needSync, true, c.receiver.nextSequence⟩ : Receiver) =
            c.receiver := by rw [← hvalid]
        rw [spoken_answer (by simp)]
        simp [handleAll, hvalid, hr]
  | false =>
    cases hverdict : verdict c.receiveBuf with
    | needMoreData =>
      have hstill : Still c.receiver c.receiveBuf := by
        unfold Still
        rw [hsync, Deframing.drain_wait hverdict]
      exact .inl ⟨by simp [findBlock, hsync, hverdict], by simp [findBlock, hsync, hverdict],
        hstill⟩
    | block n =>
      have hn := format.block_le hverdict
      obtain ⟨hret, hpop, hreceiver, hanswer⟩ := findBlock_block hsync hverdict
      have hsame : (handle c.receiver (.frame (c.receiveBuf.take n))).1.needSync = false := by
        rw [needSync_handle, hsync]
      rw [hpop, hreceiver, hanswer]
      refine .inr ⟨hret, hn.2, [.frame (c.receiveBuf.take n)], ?_, ?_, ?_, List.drop_suffix _ _,
        ?_, ?_⟩
      · rw [hsync, Deframing.drain_block hverdict, hsame]
        rfl
      · have hr : (handle c.receiver (.frame (c.receiveBuf.take n))).1 =
            { (handle c.receiver (.frame (c.receiveBuf.take n))).1 with
              needSync := c.receiver.needSync } := by
          rw [← needSync_handle c.receiver (.frame (c.receiveBuf.take n))]
        rw [← hr, spoken_eq]
        · simp [handleAll]
        · simp only [handle]
          split <;> simp
      · intro h
        rw [hsame] at h
        cases h
      · intro h
        rw [hsame] at h
        cases h
      · intro h
        simp only [handle] at h
        split at h <;> simp at h
    | error =>
      obtain ⟨b, buf, hbuf⟩ : ∃ b buf', c.receiveBuf = b :: buf' := by
        cases hbuf : c.receiveBuf with
        | nil =>
          rw [hbuf, show verdict [] = .needMoreData from format.verdict_nil] at hverdict
          cases hverdict
        | cons b buf => exact ⟨b, buf, rfl⟩
      rw [hbuf] at hverdict ⊢
      obtain ⟨hret, hpop, b', hreceiver, hanswer, hdrain, hvalid⟩ :=
        findBlock_error hsync hbuf hverdict
      rw [hreceiver]
      refine .inr ⟨by omega, hpop, [.bad b], ?_, ?_, hvalid, List.drop_suffix _ _,
        fun _ => .inr ⟨b, by simp⟩, fun _ => .inr ⟨b, by simp⟩⟩
      · rw [hsync, Deframing.drain_error hverdict]
        exact congrArg (Deframing.Drained.cons (.bad b)) hdrain
      · have hr := needSync_handle c.receiver (.bad b)
        rw [hanswer]
        simp [handleAll, ← hr]

/-- When something is run, it is a block with the number that is expected. -/
theorem verdict_of_ret_pos {r : Receiver} {buf : Bytes} (h : 0 < (findBlock r buf).ret) :
    r.needSync = false ∧ ∃ n, verdict buf = .block n := by
  have hdiscard : ∀ r : Receiver, (discard r buf).ret = -1 := by
    intro r
    unfold discard
    split <;> rfl
  unfold findBlock at h
  split at h
  · rw [hdiscard] at h
    omega
  next hnot =>
  cases hverdict : verdict buf with
  | needMoreData =>
    rw [hverdict] at h
    exact absurd h (by simp)
  | error =>
    rw [hverdict] at h
    dsimp only at h
    split at h
    · exact absurd h (by simp)
    · rw [hdiscard] at h
      omega
  | block n =>
    refine ⟨?_, n, rfl⟩
    cases hr : r.needSync with
    | false => rfl
    | true =>
      refine absurd ⟨?_, hr⟩ hnot
      rintro rfl
      rw [show verdict [] = .needMoreData from format.verdict_nil] at hverdict
      cases hverdict

/-- **A block is run.** -/
theorem findBlock_run {r : Receiver} {buf : Bytes} (h : 0 < (findBlock r buf).ret) :
    r.needSync = false ∧ verdict buf = .block (findBlock r buf).popCount ∧
      (findBlock r buf).receiver = { r with
        needValid := false
        nextSequence := following
          ((buf.take (findBlock r buf).popCount).getD MESSAGE_POS_SEQ 0) } := by
  obtain ⟨hsync, n, hverdict⟩ := verdict_of_ret_pos h
  have hseq : (buf.take n).getD MESSAGE_POS_SEQ 0 = buf.getD MESSAGE_POS_SEQ 0 := by
    obtain ⟨seq, payload, rest, hbuf, -, -, rfl⟩ := verdict_eq_block_iff.mp hverdict
    rw [hbuf, ← length_frame seq payload, List.take_left]
    rfl
  have hnext : buf.getD MESSAGE_POS_SEQ 0 = r.nextSequence := by
    by_contra hne
    simp only [findBlock, hsync, hverdict, Bool.false_eq_true, and_false, if_false, ne_eq, hne,
      not_false_eq_true, if_true] at h
    omega
  have hfind : findBlock r buf = ⟨{ r with
      needValid := false, nextSequence := following r.nextSequence }, 1, n, false⟩ := by
    simp only [findBlock, hsync, hverdict, hnext, Bool.false_eq_true, and_false, if_false, ne_eq,
      not_true_eq_false]
  rw [hfind]
  exact ⟨hsync, hverdict, by rw [hseq, hnext]⟩

/-! ## Interrupts and the task -/

/-- The bytes that there is room for. -/
def stored (c : Console) (data : Bytes) : Bytes := data.take (RX_BUFFER_SIZE - c.receiveBuf.length)

/-- The bytes that are received. -/
def Event.data : Event → Bytes
  | .rx data => [data]
  | .task _ meanwhile => meanwhile

/-- What of the bytes that are received gets into the buffer. -/
def storedAll : Console → List Event → Bytes
  | _, [] => []
  | c, e :: events => stored c e.data ++ storedAll (step c e).1 events

/-- A byte is received. -/
theorem serialRxByte_eq (c : Console) (data : UInt8) :
    serialRxByte c data = { c with
      receiveBuf := c.receiveBuf ++ stored c [data]
      woken := c.woken || data == MESSAGE_SYNC } := by
  unfold serialRxByte stored
  dsimp only
  split
  · next hfull =>
    rw [Nat.sub_eq_zero_of_le hfull]
    simp
  · next hroom =>
    obtain ⟨k, hk⟩ : ∃ k, RX_BUFFER_SIZE - c.receiveBuf.length = k + 1 :=
      ⟨RX_BUFFER_SIZE - c.receiveBuf.length - 1, by omega⟩
    rw [hk]
    simp

/-- Several bytes are received. -/
theorem foldl_serialRxByte (c : Console) (data : Bytes) :
    data.foldl serialRxByte c = { c with
      receiveBuf := c.receiveBuf ++ stored c data
      woken := c.woken || data.any (· == MESSAGE_SYNC) } := by
  induction data generalizing c with
  | nil => simp [stored]
  | cons b data ih =>
    rw [List.foldl_cons, ih, serialRxByte_eq]
    have hstored : stored c [b] ++ stored { c with
        receiveBuf := c.receiveBuf ++ stored c [b], woken := c.woken || b == MESSAGE_SYNC } data =
          stored c (b :: data) := by
      unfold stored
      cases hroom : RX_BUFFER_SIZE - c.receiveBuf.length with
      | zero =>
        simp [hroom]
      | succ k =>
        have hk : RX_BUFFER_SIZE - (c.receiveBuf.length + 1) = k := by omega
        simp [hk]
    simp only [Console.mk.injEq, true_and, and_true]
    constructor
    · rw [List.append_assoc, hstored]
    · rw [List.any_cons, Bool.or_assoc]

/-- While the task is not woken there is nothing for it to do, but for bytes that have come since
and none of which is a synchronisation byte. -/
def Attends (c : Console) : Prop :=
  c.woken = false → ∃ u v, c.receiveBuf = u ++ v ∧ Still c.receiver u ∧ MESSAGE_SYNC ∉ v

/-- A synchronisation byte wakes the task. -/
theorem Attends.rx {c : Console} (h : Attends c) (data : UInt8) : Attends (serialRxByte c data) := by
  rw [serialRxByte_eq]
  intro hwoken
  rw [Bool.or_eq_false_iff] at hwoken
  obtain ⟨u, v, hbuf, hstill, hsync⟩ := h hwoken.1
  refine ⟨u, v ++ stored c [data], by rw [hbuf, List.append_assoc], hstill, fun hmem => ?_⟩
  rcases List.mem_append.mp hmem with hmem | hmem
  · exact hsync hmem
  · have hdata := List.mem_singleton.mp (List.mem_of_mem_take hmem)
    rw [← hdata] at hwoken
    simp at hwoken

/-- Whatever bytes come. -/
theorem Attends.foldl {c : Console} (h : Attends c) (data : Bytes) :
    Attends (data.foldl serialRxByte c) := by
  induction data generalizing c with
  | nil => exact h
  | cons b data ih => exact ih (h.rx b)

/-- The block at the front of the buffer was run up to a command that shut the machine down: it
has the number before the one that is expected now. -/
structure Left (c : Console) (block : Bytes) : Prop where
  front : block <+: c.receiveBuf
  whole : verdict block = .block block.length
  idle : c.receiver.needSync = false
  valid : c.receiver.needValid = false
  expected : c.receiver.nextSequence = following (block.getD MESSAGE_POS_SEQ 0)

/-- Two numbers that follow each other differ. -/
theorem following_ne {seq : UInt8} (h : seq &&& ~~~MESSAGE_SEQ_MASK = MESSAGE_DEST) :
    seq ≠ following seq := by
  have hall : ∀ seq : UInt8, seq &&& ~~~MESSAGE_SEQ_MASK = MESSAGE_DEST → seq ≠ following seq := by
    decide +kernel
  exact hall seq h

/-- **A block that was left is refused**, and no more than that is done with it. -/
theorem Left.findBlock {c : Console} {block : Bytes} (h : Left c block) :
    findBlock c.receiver c.receiveBuf = ⟨c.receiver, -1, block.length, true⟩ ∧
      verdict c.receiveBuf = .block block.length := by
  obtain ⟨rest, hbuf⟩ := h.front
  have hverdict : verdict c.receiveBuf = .block block.length := by
    have hne : verdict block ≠ .needMoreData := by
      rw [h.whole]
      simp
    rw [← hbuf, verdict_append rest hne, h.whole]
  obtain ⟨seq, payload, rest', hblock, hdest, -, -⟩ := verdict_eq_block_iff.mp h.whole
  have hseq : c.receiveBuf.getD MESSAGE_POS_SEQ 0 = block.getD MESSAGE_POS_SEQ 0 := by
    rw [← hbuf, hblock]
    rfl
  have hseq' : block.getD MESSAGE_POS_SEQ 0 = seq := by
    rw [hblock]
    rfl
  have hne : seq ≠ c.receiver.nextSequence := by
    rw [h.expected, hseq']
    exact following_ne hdest
  have hreceiver : (⟨false, false, c.receiver.nextSequence⟩ : Receiver) = c.receiver := by
    conv_rhs => rw [show c.receiver = ⟨c.receiver.needSync, c.receiver.needValid,
      c.receiver.nextSequence⟩ from rfl, h.idle, h.valid]
  refine ⟨?_, hverdict⟩
  simp only [Command.findBlock, h.idle, hverdict, hseq, hseq', hne, hreceiver, Bool.false_eq_true,
    and_false, if_false, ne_eq, not_false_eq_true, if_true]

/-- **The next run of the task acknowledges the block that was left**, and takes it from the
buffer; if there is something behind it, the task is run again. -/
theorem Left.consoleTask {c : Console} {block : Bytes} (h : Left c block) (completes : Bool)
    (meanwhile : Bytes) :
    consoleTask completes meanwhile c =
      ({ c with
          receiveBuf := c.receiveBuf.drop block.length ++ stored c meanwhile
          woken := meanwhile.any (· == MESSAGE_SYNC) ||
            decide (c.receiveBuf.drop block.length ++ stored c meanwhile ≠ []) },
        [.acknak c.receiver.nextSequence]) := by
  obtain ⟨hfind, hverdict⟩ := h.findBlock
  have hle : block.length ≤ c.receiveBuf.length := h.front.length_le
  have hrequest := requestsBootloader_block hverdict ⟨c.receiver, -1, block.length, true⟩
  have hstored : stored ⟨c.receiver, c.receiveBuf, false, c.haveBootloaderRequest⟩ meanwhile =
      stored c meanwhile := rfl
  simp only [Command.consoleTask, foldl_serialRxByte, hfind, consolePopInput, answer, hrequest,
    hstored, List.drop_append_of_le_length hle]
  simp

/-- How far a run has come along a stream. -/
inductive Follows (r : Receiver) (stream : Bytes) (c : Console) (out : List Output) : Prop
  /-- up to its buffer -/
  | even (found : List (Found UInt8)) (attends : Attends c)
      (reads : Reads r stream c.receiver c.receiveBuf found out)
  /-- up to a block that it has run, but not acknowledged -/
  | left (found : List (Found UInt8)) (block : Bytes) (isLeft : Left c block)
      (last : out.getLast? = some (.dispatched block))
      (reads : Reads r stream c.receiver (c.receiveBuf.drop block.length) found
        (out ++ [.acknak c.receiver.nextSequence]))

/-- A byte is received. -/
theorem Follows.rx {r : Receiver} {stream : Bytes} {c : Console} {out : List Output}
    (h : Follows r stream c out) (data : UInt8) :
    Follows r (stream ++ stored c [data]) (serialRxByte c data) out := by
  have heq := serialRxByte_eq c data
  cases h with
  | even found attends reads =>
    refine .even found (attends.rx data) ?_
    rw [heq]
    exact reads.append _
  | left found block isLeft last reads =>
    rw [heq]
    refine .left found block { isLeft with
      front := isLeft.front.trans (List.prefix_append _ _) } last ?_
    have happend := reads.append (stored c [data])
    rwa [← List.drop_append_of_le_length isLeft.front.length_le] at happend

/-- The task is run, when no block is left. -/
theorem Follows.task {r : Receiver} {stream : Bytes} {c : Console} {out : List Output}
    {found : List (Found UInt8)} (reads : Reads r stream c.receiver c.receiveBuf found out)
    (completes : Bool) (meanwhile : Bytes) :
    Follows r (stream ++ stored c meanwhile) (consoleTask completes meanwhile c).1
      (out ++ (consoleTask completes meanwhile c).2) := by
  rcases findBlock_spec reads.quiet with ⟨hret, hreceiver, hstill⟩ | ⟨hret, hpop, found', hfound⟩
  · -- nothing is found
    have htask : consoleTask completes meanwhile c =
        (meanwhile.foldl serialRxByte { c with woken := false }, []) := by
      simp only [consoleTask, hret, hreceiver, if_true]
    have hattends : Attends { c with woken := false } := fun _ =>
      ⟨c.receiveBuf, [], by simp, hstill, by simp⟩
    rw [htask, List.append_nil]
    refine .even found (hattends.foldl meanwhile) ?_
    rw [foldl_serialRxByte]
    exact reads.append _
  have hall := reads.trans hfound
  by_cases hrun : (findBlock c.receiver c.receiveBuf).ret > 0 ∧ completes = false
  · -- a block is run, and a command in it shuts the machine down
    obtain ⟨hsync, hverdict, hreceiver⟩ := findBlock_run hrun.1
    have htask : consoleTask completes meanwhile c =
        (meanwhile.foldl serialRxByte { c with
            receiver := (findBlock c.receiver c.receiveBuf).receiver, woken := false },
          [.dispatched (c.receiveBuf.take (findBlock c.receiver c.receiveBuf).popCount)]) := by
      simp only [consoleTask, if_neg hret, if_pos hrun]
    have hanswer : answer c (findBlock c.receiver c.receiveBuf) =
        [.dispatched (c.receiveBuf.take (findBlock c.receiver c.receiveBuf).popCount)] ++
          [.acknak (findBlock c.receiver c.receiveBuf).receiver.nextSequence] := by
      rw [answer, if_pos hrun.1]
      rfl
    have hlen : (c.receiveBuf.take (findBlock c.receiver c.receiveBuf).popCount).length =
        (findBlock c.receiver c.receiveBuf).popCount := List.length_take_of_le hpop
    have hwhole : verdict (c.receiveBuf.take (findBlock c.receiver c.receiveBuf).popCount) =
        .block (findBlock c.receiver c.receiveBuf).popCount := by
      obtain ⟨seq, payload, rest, hbuf, hdest, hpayload, hn⟩ := verdict_eq_block_iff.mp hverdict
      refine verdict_eq_block_iff.mpr ⟨seq, payload, [], ?_, hdest, hpayload, hn⟩
      rw [hn, ← length_frame seq payload, List.append_nil, hbuf, List.take_left]
    rw [hanswer, ← List.append_assoc] at hall
    rw [htask, foldl_serialRxByte]
    refine .left (found ++ found') _ ⟨?_, by rw [hlen, hwhole], ?_, ?_, ?_⟩ (by simp) ?_
    · exact (List.take_prefix _ _).trans (List.prefix_append _ _)
    · dsimp only
      rw [hreceiver, hsync]
    · dsimp only
      rw [hreceiver]
    · dsimp only
      rw [hreceiver]
    · have happend := hall.append (stored c meanwhile)
      rw [← List.drop_append_of_le_length hpop] at happend
      rw [hlen]
      exact happend
  · -- what is found is taken from the buffer
    have htask : consoleTask completes meanwhile c =
        (consolePopInput (findBlock c.receiver c.receiveBuf).popCount
          (meanwhile.foldl serialRxByte { c with
            receiver := (findBlock c.receiver c.receiveBuf).receiver, woken := false }),
          answer c (findBlock c.receiver c.receiveBuf)) := by
      simp only [consoleTask, if_neg hret, if_neg hrun]
    rw [htask, foldl_serialRxByte]
    refine .even (found ++ found') (fun hwoken => ?_) ?_
    · simp only [consolePopInput, Bool.or_eq_false_iff] at hwoken
      refine ⟨[], [], ?_, still_nil _, by simp⟩
      simpa [consolePopInput] using hwoken.2
    · have happend := hall.append (stored c meanwhile)
      rw [← List.drop_append_of_le_length hpop] at happend
      exact happend

/-- **One event** takes the console some way along the stream. -/
theorem Follows.step {r : Receiver} {stream : Bytes} {c : Console} {out : List Output}
    (h : Follows r stream c out) (e : Event) :
    Follows r (stream ++ stored c e.data) (step c e).1 (out ++ (step c e).2) := by
  cases e with
  | rx data =>
    rw [Command.step, List.append_nil]
    exact h.rx data
  | task completes meanwhile =>
    cases h with
    | even found attends reads => exact .task reads completes meanwhile
    | left found block isLeft last reads =>
      rw [Command.step, isLeft.consoleTask]
      refine .even found (fun hwoken => ?_) (reads.append _)
      rw [Bool.or_eq_false_iff] at hwoken
      exact ⟨[], [], by simpa using hwoken.2, still_nil _, by simp⟩

/-- **Whatever the order of interrupts and runs of the task**, the console goes along the stream
of the bytes that got into the buffer. -/
theorem follows_run {c : Console} (hquiet : Quiet c.receiver) (h : Attends c)
    (events : List Event) :
    Follows c.receiver (c.receiveBuf ++ storedAll c events) (run c events).1 (run c events).2 := by
  have hall : ∀ (events : List Event) (r : Receiver) (stream : Bytes) (c : Console)
      (out : List Output), Follows r stream c out →
      Follows r (stream ++ storedAll c events) (run c events).1 (out ++ (run c events).2) := by
    intro events
    induction events with
    | nil =>
      intro r stream c out h
      rwa [storedAll, run, List.append_nil, List.append_nil]
    | cons e events ih =>
      intro r stream c out h
      have hrest := ih r _ _ _ (h.step e)
      rwa [List.append_assoc, List.append_assoc] at hrest
  exact hall events c.receiver c.receiveBuf c [] (.even [] h (.refl hquiet _))

/-- The last byte of a block. -/
theorem getLast?_frame (seq : UInt8) (payload : Bytes) :
    (frame seq payload).getLast? = some MESSAGE_SYNC := by
  rw [frame, List.getLast?_append_of_ne_nil _ (by simp)]
  rfl

/-- Where a block is found with bytes that came later, these have a synchronisation byte. -/
theorem sync_mem_of_block {u v : Bytes} {n : Nat} (h : verdict (u ++ v) = .block n)
    (hu : ∀ m, verdict u ≠ .block m) : MESSAGE_SYNC ∈ v := by
  obtain ⟨seq, payload, rest, hbuf, hdest, hlen, rfl⟩ := verdict_eq_block_iff.mp h
  by_cases hn : (frame seq payload).length ≤ u.length
  · obtain ⟨rest', hrest⟩ : ∃ rest', u = frame seq payload ++ rest' := by
      refine ⟨u.drop (frame seq payload).length, ?_⟩
      have htake := congrArg (List.take (frame seq payload).length) hbuf
      rw [List.take_append_of_le_length hn, List.take_left] at htake
      conv_lhs => rw [← List.take_append_drop (frame seq payload).length u, htake]
    exact absurd (verdict_eq_block_iff.mpr ⟨seq, payload, rest', hrest, hdest, hlen, rfl⟩) (hu _)
  · -- the last byte of the block is behind `u`
    have hlast := congrArg (fun l => l[(frame seq payload).length - 1]?) hbuf
    have hpos : 0 < (frame seq payload).length := by
      rw [length_frame]
      unfold MESSAGE_MIN
      omega
    have hsync : (frame seq payload)[(frame seq payload).length - 1]? = some MESSAGE_SYNC := by
      rw [← List.getLast?_eq_getElem?, getLast?_frame]
    rw [List.getElem?_append_right (by omega), List.getElem?_append_left (by omega), hsync] at hlast
    exact List.mem_of_getElem? hlast

/-- **No block waits for ever**: while the task is not woken, no block is at the front of the
buffer but one that it has left when a command shut the machine down; and that one is refused, and
so acknowledged, when the task is run again. -/
theorem asleep_no_block {c : Console} (hquiet : Quiet c.receiver) (h : Attends c)
    (events : List Event) (hwoken : (run c events).1.woken = false) :
    (findBlock (run c events).1.receiver (run c events).1.receiveBuf).ret ≤ 0 ∧
      (((run c events).1.receiver.needSync = false →
          ∀ n, verdict (run c events).1.receiveBuf ≠ .block n) ∨
        ∃ block rest, (run c events).2.getLast? = some (.dispatched block) ∧
          (run c events).1.receiveBuf = block ++ rest ∧
          ∀ completes, consoleTask completes [] (run c events).1 =
            ({ (run c events).1 with receiveBuf := rest, woken := decide (rest ≠ []) },
              [.acknak (run c events).1.receiver.nextSequence])) := by
  cases follows_run hquiet h events with
  | even found attends reads =>
    obtain ⟨u, v, hbuf, hstill, hsync⟩ := attends hwoken
    have hnone : (run c events).1.receiver.needSync = false →
        ∀ n, verdict (run c events).1.receiveBuf ≠ .block n := by
      intro hr n hblock
      rw [hbuf] at hblock
      refine hsync (sync_mem_of_block hblock fun m hm => ?_)
      unfold Still at hstill
      rw [hr, Deframing.drain_block hm] at hstill
      cases hstill
    refine ⟨not_lt.mp fun hpos => ?_, .inl hnone⟩
    obtain ⟨hr, n, hblock⟩ := verdict_of_ret_pos hpos
    exact hnone hr n hblock
  | left found block isLeft last reads =>
    obtain ⟨hfind, -⟩ := isLeft.findBlock
    obtain ⟨rest, hbuf⟩ := isLeft.front
    refine ⟨by rw [hfind]; simp, .inr ⟨block, rest, last, hbuf.symm, fun completes => ?_⟩⟩
    have hdrop : (run c events).1.receiveBuf.drop block.length = rest := by
      rw [← hbuf, List.drop_left]
    rw [isLeft.consoleTask, hdrop]
    simp [stored]

/-- A command shuts the machine down, and the next block is received in part. -/
theorem asleep_no_block_left :
    let c : Console := ⟨⟨false, false, 0x10⟩, [], false, false⟩
    let final := run c ((frame 0x10 [1]).map Event.rx ++ [.task false [6, 0x11]])
    (findBlock final.1.receiver final.1.receiveBuf).ret ≤ 0 ∧
      ((final.1.receiver.needSync = false → ∀ n, verdict final.1.receiveBuf ≠ .block n) ∨
        ∃ block rest, final.2.getLast? = some (.dispatched block) ∧
          final.1.receiveBuf = block ++ rest ∧
          ∀ completes, consoleTask completes [] final.1 =
            ({ final.1 with receiveBuf := rest, woken := decide (rest ≠ []) },
              [.acknak final.1.receiver.nextSequence])) :=
  asleep_no_block (c := ⟨⟨false, false, 0x10⟩, [], false, false⟩)
    (fun h => absurd h (by decide)) (fun _ => ⟨[], [], rfl, still_nil _, by simp⟩) _
    (by decide +kernel)

/-! ## Blocks of the host -/

/-- Blocks that are numbered one after the other. -/
def Numbered : UInt8 → List Bytes → Prop
  | _, [] => True
  | seq, block :: blocks => (∃ payload, block = frame seq payload ∧
      payload.length ≤ MESSAGE_PAYLOAD_MAX) ∧ Numbered (following seq) blocks

/-- The next number has the bits of a block to the firmware. -/
theorem following_dest (seq : UInt8) : following seq &&& ~~~MESSAGE_SEQ_MASK = MESSAGE_DEST := by
  revert seq
  decide +kernel

/-- Each of them is a block. -/
theorem Numbered.verdict {seq : UInt8} {blocks : List Bytes}
    (hseq : seq &&& ~~~MESSAGE_SEQ_MASK = MESSAGE_DEST) (h : Numbered seq blocks) :
    ∀ block ∈ blocks, Msgblock.verdict block = .block block.length := by
  induction blocks generalizing seq with
  | nil => exact fun _ hmem => absurd hmem List.not_mem_nil
  | cons block blocks ih =>
    obtain ⟨⟨payload, rfl, hlen⟩, hrest⟩ := h
    intro x hx
    rcases List.mem_cons.mp hx with rfl | hx
    · exact verdict_whole_iff.mpr ⟨seq, payload, rfl, hseq, hlen⟩
    · exact ih (following_dest seq) hrest x hx

/-- What the console answers to blocks it expects. -/
def answers : UInt8 → List Bytes → List Output
  | _, [] => []
  | seq, block :: blocks =>
    .dispatched block :: .acknak (following seq) :: answers (following seq) blocks

/-- Numbered blocks are run and acknowledged. -/
theorem handleAll_numbered {r : Receiver} {blocks : List Bytes}
    (h : Numbered r.nextSequence blocks) :
    (handleAll r (blocks.map .frame)).2 = answers r.nextSequence blocks := by
  induction blocks generalizing r with
  | nil => rfl
  | cons block blocks ih =>
    obtain ⟨⟨payload, rfl, -⟩, hrest⟩ := h
    have hseq : (frame r.nextSequence payload).getD MESSAGE_POS_SEQ 0 = r.nextSequence := rfl
    have hhandle : handle r (.frame (frame r.nextSequence payload)) =
        ({ r with needValid := false, nextSequence := following r.nextSequence },
          [.dispatched (frame r.nextSequence payload), .acknak (following r.nextSequence)]) := by
      simp only [handle, hseq, ne_eq, not_true_eq_false, if_false]
    have hrest' := @ih { r with needValid := false, nextSequence := following r.nextSequence } hrest
    rw [List.map_cons, handleAll, hhandle, hrest']
    rfl

/-- Numbered blocks end with a synchronisation byte. -/
theorem Numbered.getLast? {seq : UInt8} {blocks : List Bytes} (h : Numbered seq blocks)
    (hne : blocks ≠ []) : blocks.flatten.getLast? = some MESSAGE_SYNC := by
  induction blocks generalizing seq with
  | nil => exact absurd rfl hne
  | cons block blocks ih =>
    obtain ⟨⟨payload, rfl, -⟩, hrest⟩ := h
    rw [List.flatten_cons]
    cases blocks with
    | nil =>
      rw [List.flatten_nil, List.append_nil]
      exact getLast?_frame seq payload
    | cons next blocks =>
      have hlast := ih hrest (by simp)
      rw [List.getLast?_append_of_ne_nil, hlast]
      intro hnil
      rw [hnil] at hlast
      cases hlast

/-- The first of them are numbered too. -/
theorem Numbered.left {seq : UInt8} {a b : List Bytes} (h : Numbered seq (a ++ b)) :
    Numbered seq a := by
  induction a generalizing seq with
  | nil => trivial
  | cons block a ih => exact ⟨h.1, ih h.2⟩

/-- What is answered to the first ones comes first. -/
theorem answers_append (seq : UInt8) (a b : List Bytes) :
    answers seq (a ++ b) = answers seq a ++ answers (following^[a.length] seq) b := by
  induction a generalizing seq with
  | nil => rfl
  | cons block a ih =>
    rw [List.cons_append, answers, answers, ih, List.length_cons, Function.iterate_succ_apply]
    rfl

/-- The last thing done for some blocks is to acknowledge the last one. -/
theorem answers_concat {seq n : UInt8} {blocks : List Bytes} {out : List Output}
    (h : out ++ [.acknak n] = answers seq blocks) :
    ∃ done block, blocks = done ++ [block] ∧ out = answers seq done ++ [.dispatched block] := by
  have hne : blocks ≠ [] := by
    rintro rfl
    simp [answers] at h
  refine ⟨blocks.dropLast, blocks.getLast hne, (List.dropLast_append_getLast hne).symm, ?_⟩
  rw [← List.dropLast_append_getLast hne, answers_append] at h
  have hsplit : answers seq blocks.dropLast ++
      answers (following^[blocks.dropLast.length] seq) [blocks.getLast hne] =
      (answers seq blocks.dropLast ++ [.dispatched (blocks.getLast hne)]) ++
        [.acknak (following (following^[blocks.dropLast.length] seq))] := by
    simp [answers]
  rw [hsplit] at h
  exact (List.append_inj' h rfl).1

/-- What is found in blocks. -/
theorem drain_numbered {seq : UInt8} {blocks : List Bytes} (h : Numbered seq blocks)
    (hseq : seq &&& ~~~MESSAGE_SEQ_MASK = MESSAGE_DEST) :
    drain format false blocks.flatten = ⟨blocks.map .frame, false, []⟩ := by
  have hdrain := Deframing.drain_frames (f := format) (h.verdict hseq) []
  rw [Deframing.drain_wait format.verdict_nil, List.append_nil] at hdrain
  simpa [Deframing.Drained.append] using hdrain

/-- **Along numbered blocks**, the first ones are run and acknowledged. -/
theorem Reads.numbered {r r' : Receiver} {stream buf' : Bytes} {found : List (Found UInt8)}
    {out : List Output} (h : Reads r stream r' buf' found out) (hsync : r.needSync = false)
    (hseq : r.nextSequence &&& ~~~MESSAGE_SEQ_MASK = MESSAGE_DEST) {blocks : List Bytes}
    (hnumbered : Numbered r.nextSequence blocks) (hstream : stream <+: blocks.flatten) :
    ∃ done rest, blocks = done ++ rest ∧ found = done.map .frame ∧
      out = answers r.nextSequence done ∧ (stream = blocks.flatten → buf' = rest.flatten) := by
  obtain ⟨more, hmore⟩ := hstream
  have heq := (h.append more).drain_eq
  rw [hmore, hsync, drain_numbered hnumbered hseq] at heq
  have hfound := congrArg Deframing.Drained.found heq
  obtain ⟨done, rest, rfl, hdone, hrest⟩ := List.map_eq_append_iff.mp hfound
  -- blocks are no noise
  have hquiet : ¬Noisy r found := by
    rintro (hnoise | ⟨b, hb⟩)
    · rw [hsync] at hnoise
      cases hnoise
    · rw [← hdone] at hb
      obtain ⟨block, -, hblock⟩ := List.mem_map.mp hb
      cases hblock
  have hidle : r'.needSync = false := Bool.eq_false_iff.mpr (mt h.searching hquiet)
  refine ⟨done, rest, rfl, hdone.symm, ?_, fun hall => ?_⟩
  · have hhandled := congrArg Prod.snd h.handled
    rw [spoken_eq (mt h.requested hquiet), ← hdone, handleAll_numbered hnumbered.left] at hhandled
    exact hhandled.symm
  · have hnil : more = [] := by
      rw [hall] at hmore
      exact List.append_right_eq_self.mp hmore
    rw [hnil, List.append_nil, hidle] at hrest heq
    have hbuf := Deframing.eq_of_found hrest.symm
    have hleft : (drain format false buf').rest = [] :=
      (congrArg Deframing.Drained.rest heq).symm
    rw [hleft, List.append_nil] at hbuf
    exact hbuf

/-- **The console asleep has come upon all that is in the stream**, when this ends with a
synchronisation byte as a block does, and no block is left. -/
theorem Reads.settled {r : Receiver} {stream : Bytes} {c : Console} {found : List (Found UInt8)}
    {out : List Output} (h : Reads r stream c.receiver c.receiveBuf found out) (hattends : Attends c)
    (hwoken : c.woken = false) (hend : stream.getLast? = some MESSAGE_SYNC) :
    drain format r.needSync stream = ⟨found, c.receiver.needSync, c.receiveBuf⟩ := by
  obtain ⟨u, v, hbuf, hstill, hsync⟩ := hattends hwoken
  have hv : v = [] := by
    by_contra hne
    obtain ⟨before, hbefore⟩ := h.suffix
    rw [hbuf] at hbefore
    rw [← hbefore, ← List.append_assoc, List.getLast?_append_of_ne_nil _ hne] at hend
    exact hsync (List.mem_of_getLast? hend)
  rw [hv, List.append_nil] at hbuf
  rw [h.drain_eq, hbuf, hstill]
  simp [Deframing.Drained.append]

/-- **Blocks the firmware expects are all run**, in order, and acknowledged one by one, in
whatever order bytes arrive and the task is run: at no time has anything else been done. When all
bytes are there and the task is asleep it has been done, up to a block with a command that has just
shut the machine down, which is still in the buffer with all that is behind it. -/
theorem blocks_dispatched (r : Receiver) (hsync : r.needSync = false)
    (hseq : r.nextSequence &&& ~~~MESSAGE_SEQ_MASK = MESSAGE_DEST) (haveBootloaderRequest : Bool)
    (blocks : List Bytes) (hnumbered : Numbered r.nextSequence blocks) (events : List Event)
    (hstored : storedAll ⟨r, [], false, haveBootloaderRequest⟩ events <+: blocks.flatten) :
    let final := run ⟨r, [], false, haveBootloaderRequest⟩ events
    final.2 <+: answers r.nextSequence blocks ∧
      (storedAll ⟨r, [], false, haveBootloaderRequest⟩ events = blocks.flatten →
        final.1.woken = false →
        (final.2 = answers r.nextSequence blocks ∧ final.1.receiveBuf = []) ∨
          ∃ done block rest, blocks = done ++ block :: rest ∧
            final.2 = answers r.nextSequence done ++ [.dispatched block] ∧
            final.1.receiveBuf = block ++ rest.flatten) := by
  intro final
  have hquiet : Quiet r := fun h => by
    rw [hsync] at h
    cases h
  have hattends : Attends ⟨r, [], false, haveBootloaderRequest⟩ := fun _ =>
    ⟨[], [], rfl, still_nil r, by simp⟩
  cases follows_run (c := ⟨r, [], false, haveBootloaderRequest⟩) hquiet hattends events with
  | even found attends reads =>
    obtain ⟨done, rest, hblocks, hfound, hout, hrest⟩ :=
      reads.numbered hsync hseq hnumbered (by simpa using hstored)
    refine ⟨?_, fun hall hwoken => .inl ?_⟩
    · rw [hout, hblocks, answers_append]
      exact List.prefix_append _ _
    · have hbuf := hrest (by simpa using hall)
      -- what is left is a whole number of blocks, and none is found there
      have hnil : rest = [] := by
        by_contra hne
        have hend : blocks.flatten.getLast? = some MESSAGE_SYNC :=
          hnumbered.getLast? (by rw [hblocks]; simp [hne])
        have hdrain := reads.settled attends hwoken (by simpa [hall] using hend)
        rw [List.nil_append, hall, hsync, drain_numbered hnumbered hseq, hfound, hblocks,
          Deframing.Drained.mk.injEq, List.map_append] at hdrain
        exact hne (by simpa using hdrain.1)
      rw [hnil, List.append_nil] at hblocks
      rw [hnil] at hbuf
      exact ⟨by rw [hblocks]; exact hout, hbuf⟩
  | left found block isLeft last reads =>
    obtain ⟨done, rest, hblocks, -, hout, hrest⟩ :=
      reads.numbered hsync hseq hnumbered (by simpa using hstored)
    obtain ⟨before, block', hdone, hout'⟩ := answers_concat hout
    rw [hout', List.getLast?_append_of_ne_nil _ (by simp)] at last
    have hsame : block' = block := by simpa using last
    subst hsame
    refine ⟨?_, fun hall _ => .inr ⟨before, block', rest, ?_, hout', ?_⟩⟩
    · have hupto : final.2 <+: answers r.nextSequence done := ⟨_, hout⟩
      rw [hblocks, answers_append]
      exact hupto.trans (List.prefix_append _ _)
    · rw [hblocks, hdone, List.append_assoc]
      rfl
    · have hbuf := hrest (by simpa using hall)
      obtain ⟨behind, hfront⟩ := isLeft.front
      rw [← hfront, List.drop_left] at hbuf
      rw [← hbuf]
      exact hfront.symm

/-- The first of two blocks shuts the machine down; the bytes of the second one wake the task. -/
theorem blocks_dispatched_two :
    let blocks := [frame 0x10 [1], frame 0x11 [2, 3]]
    let events := (frame 0x10 [1]).map Event.rx ++ [.task false []] ++
      (frame 0x11 [2, 3]).map Event.rx ++ [.task true [], .task true []]
    let final := run ⟨⟨false, false, 0x10⟩, [], false, true⟩ events
    final.2 <+: answers 0x10 blocks ∧
      (storedAll ⟨⟨false, false, 0x10⟩, [], false, true⟩ events = blocks.flatten →
        final.1.woken = false →
        (final.2 = answers 0x10 blocks ∧ final.1.receiveBuf = []) ∨
          ∃ done block rest, blocks = done ++ block :: rest ∧
            final.2 = answers 0x10 done ++ [.dispatched block] ∧
            final.1.receiveBuf = block ++ rest.flatten) :=
  blocks_dispatched ⟨false, false, 0x10⟩ rfl (by decide) true [frame 0x10 [1], frame 0x11 [2, 3]]
    ⟨⟨[1], rfl, by decide⟩, ⟨[2, 3], rfl, by decide⟩, trivial⟩ _ ⟨[], by decide +kernel⟩

/-- A number comes again after sixteen. -/
theorem following_iterate_ne (seq : UInt8) (hseq : seq &&& ~~~MESSAGE_SEQ_MASK = MESSAGE_DEST)
    {k : Nat} (hpos : 0 < k) (hk : k < 16) : seq ≠ following^[k] seq := by
  have hall : ∀ seq : UInt8, seq &&& ~~~MESSAGE_SEQ_MASK = MESSAGE_DEST →
      ∀ k < 16, 0 < k → seq ≠ following^[k] seq := by decide +kernel
  exact hall seq hseq k hk hpos

/-- **Blocks that are sent again**: those that were run are refused, the others are run. -/
theorem handleAll_again {r : Receiver} {seq : UInt8} {blocks : List Bytes}
    (hseq : seq &&& ~~~MESSAGE_SEQ_MASK = MESSAGE_DEST) (h : Numbered seq blocks) {k : Nat}
    (hk : k < 16) (hlen : k ≤ blocks.length) (hr : r.nextSequence = following^[k] seq) :
    (handleAll r (blocks.map .frame)).2 =
      List.replicate k (.acknak r.nextSequence) ++ answers r.nextSequence (blocks.drop k) := by
  induction k generalizing r seq blocks with
  | zero =>
    have hr' : r.nextSequence = seq := hr
    rw [← hr'] at h
    exact handleAll_numbered h
  | succ k ih =>
    cases blocks with
    | nil => exact absurd hlen (by simp)
    | cons block blocks =>
      obtain ⟨⟨payload, rfl, -⟩, hrest⟩ := h
      have hne : seq ≠ r.nextSequence := by
        rw [hr]
        exact following_iterate_ne seq hseq (Nat.succ_pos k) hk
      have hget : (frame seq payload).getD MESSAGE_POS_SEQ 0 = seq := rfl
      have hhandle : handle r (.frame (frame seq payload)) =
          ({ r with needValid := false }, [.acknak r.nextSequence]) := by
        simp only [handle, hget, if_pos hne]
      have hrest' := @ih { r with needValid := false } (following seq) blocks
        (following_dest seq) hrest (by omega) (by simpa using hlen) hr
      rw [List.map_cons, handleAll, hhandle, hrest']
      rfl

/-- Once a synchronisation byte has come, it does not matter whether the task had been woken
before. -/
theorem run_woken {c : Console} {events : List Event} (h : MESSAGE_SYNC ∈ storedAll c events) :
    run c events = run { c with woken := true } events ∧
      storedAll c events = storedAll { c with woken := true } events := by
  induction events generalizing c with
  | nil => exact absurd h List.not_mem_nil
  | cons e events ih =>
    cases e with
    | task completes meanwhile => exact ⟨rfl, rfl⟩
    | rx data =>
      have hc := serialRxByte_eq c data
      have hwoken := serialRxByte_eq { c with woken := true } data
      by_cases hdata : data = MESSAGE_SYNC
      · have hsame : serialRxByte c data = serialRxByte { c with woken := true } data := by
          rw [hc, hwoken, hdata]
          simp [stored]
        refine ⟨?_, ?_⟩
        · simp only [run, step, hsame]
        · simp only [storedAll, step, hsame]
          rfl
      · have hmem : MESSAGE_SYNC ∈ storedAll (serialRxByte c data) events := by
          rcases List.mem_append.mp h with hmem | hmem
          · exact absurd (List.mem_singleton.mp (List.mem_of_mem_take hmem)).symm hdata
          · exact hmem
        have hsame : { serialRxByte c data with woken := true } =
            serialRxByte { c with woken := true } data := by
          rw [hc, hwoken]
          simp [stored]
        obtain ⟨hrun, hstored⟩ := ih hmem
        rw [hsame] at hrun hstored
        refine ⟨?_, ?_⟩
        · simp only [run, step, hrun]
        · simp only [storedAll, step, hstored]
          rfl

end Cream.Model.Command
