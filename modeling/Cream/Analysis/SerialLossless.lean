import Cream.Model.SerialBridge

/-!
# What the serial bridge loses

`serial.cpp`, `UsbSerialManager.kt`: `SerialNative.write` flushes what Klipper has not read yet
before it writes, and does not look at how much was written. In the other direction the worker
loses nothing. `bridge_lossless` says that nothing is lost at all in the runs where every write
finds the pty read to the end and has room; what a write does otherwise is shown by
`bridge_not_lossless`.
-/

set_option autoImplicit false

namespace Cream.Model.SerialBridge

open Cream.Library.Transition

/-- What the printer has sent and is not on the pty yet. -/
def pending (s : SerialBridge) : List UInt8 :=
  match s.phase with
  | .reading => []
  | .flushing chunk => chunk
  | .writing chunk => chunk

/-- The bytes Klipper reads are a prefix of the chunks, and all of them once everything is
written and read. -/
def ToKlipper (s : SerialBridge) : Prop :=
  s.received <+: s.chunks.flatten ∧
    (s.phase = .reading → s.queue = [] → s.received = s.chunks.flatten)

/-- The arrays that were handed on are what Klipper wrote, up to what the worker has not read,
and no array is empty. -/
def FromKlipper (s : SerialBridge) : Prop :=
  s.handed.flatten ++ s.outgoing = s.sent ∧ [] ∉ s.handed

/-- A step that does not make the pty lose bytes: a flush finds nothing that Klipper has not
read, a write has room for its chunk. -/
def Roomy (s : SerialBridge) : Action → Prop
  | .tcflush _ => s.queue = []
  | .write _ => s.queue.length + s.pending.length ≤ s.capacity
  | _ => True

instance (s : SerialBridge) : (a : Action) → Decidable (s.Roomy a)
  | .usbRead _ _ => inferInstanceAs (Decidable True)
  | .tcflush _ => inferInstanceAs (Decidable (s.queue = []))
  | .write _ => inferInstanceAs (Decidable (_ ≤ _))
  | .klipperRead _ => inferInstanceAs (Decidable True)
  | .klipperWrite _ => inferInstanceAs (Decidable True)
  | .control _ => inferInstanceAs (Decidable True)
  | .workerRead _ => inferInstanceAs (Decidable True)

variable {s t : SerialBridge} {a : Action}

/-! ## To Klipper -/

/-- Every byte the printer has sent is read, on the pty or about to be written. -/
def Accounted (s : SerialBridge) : Prop :=
  s.received ++ (s.queue ++ s.pending) = s.chunks.flatten

/-- Before the first byte. -/
theorem accounted_init (capacity : Nat) : (init capacity).Accounted := rfl

/-- **A step with room loses nothing** on the way to Klipper. -/
theorem Accounted.step (h : s.Accounted) (hroomy : s.Roomy a) (hstep : s.step a = some t) :
    t.Accounted := by
  unfold Accounted pending at h ⊢
  cases a with
  | usbRead buffer c =>
    simp only [SerialBridge.step] at hstep
    split at hstep
    · next hidle =>
      rw [hidle.1] at h
      split at hstep
      · cases hstep
        rw [hidle.1]
        exact h
      · next chunk hchunk =>
        cases hstep
        simp only [List.append_nil] at h
        simp only [List.flatten_append, List.flatten_singleton]
        rw [← h, List.append_assoc]
    · cases hstep
  | tcflush kept =>
    simp only [SerialBridge.step] at hstep
    split at hstep
    · next chunk hphase =>
      split at hstep
      · next hkept =>
        cases hstep
        have hempty : s.queue = [] := hroomy
        rw [hempty] at hkept
        rw [List.sublist_nil.mp hkept]
        rw [hphase, hempty] at h
        exact h
      · cases hstep
    · cases hstep
  | write accepted =>
    simp only [SerialBridge.step] at hstep
    split at hstep
    · next chunk hphase =>
      split at hstep
      · next haccepted =>
        cases hstep
        have hroom : s.queue.length + s.pending.length ≤ s.capacity := hroomy
        rw [pending, hphase] at hroom
        rw [hphase] at h
        rw [haccepted.2.2 hroom, List.take_length, List.append_nil]
        exact h
      · cases hstep
    · cases hstep
  | klipperRead n =>
    cases hstep
    dsimp only
    rw [← h]
    simp only [List.append_assoc, ← List.append_assoc (s.queue.take n), List.take_append_drop]
  | klipperWrite bytes =>
    cases hstep
    exact h
  | control status =>
    cases hstep
    exact h
  | workerRead n =>
    simp only [SerialBridge.step] at hstep
    split at hstep
    · cases hstep
      exact h
    · cases hstep

/-- **What is accounted for** is lost to nobody. -/
theorem Accounted.toKlipper (h : s.Accounted) : s.ToKlipper := by
  refine ⟨⟨_, h⟩, fun hreading hempty => ?_⟩
  unfold Accounted pending at h
  rw [hreading, hempty, List.append_nil, List.append_nil] at h
  exact h

/-! ## From Klipper -/

/-- What the worker hands on of a packet: its data, without the control byte. -/
theorem worker_packet (status : UInt8) (outgoing : List UInt8) {n : Nat} (hn : 0 < n) :
    worker (packet status outgoing n) =
      if status ≠ 0 ∨ outgoing = [] then none else some (outgoing.take n) := by
  unfold worker packet
  by_cases hstatus : status = 0
  · cases outgoing with
    | nil => simp [hstatus]
    | cons b rest =>
      obtain ⟨m, rfl⟩ : ∃ m, n = m + 1 := ⟨n - 1, by omega⟩
      simp [hstatus]
  · simp [hstatus]

/-- **No step loses anything** on the way from Klipper. -/
theorem FromKlipper.step (h : s.FromKlipper) (hstep : s.step a = some t) : t.FromKlipper := by
  obtain ⟨hsent, hne⟩ := h
  cases a with
  | usbRead buffer c =>
    simp only [SerialBridge.step] at hstep
    split at hstep
    · split at hstep
      · cases hstep
        exact ⟨hsent, hne⟩
      · cases hstep
        exact ⟨hsent, hne⟩
    · cases hstep
  | tcflush kept =>
    simp only [SerialBridge.step] at hstep
    split at hstep
    · split at hstep
      · cases hstep
        exact ⟨hsent, hne⟩
      · cases hstep
    · cases hstep
  | write accepted =>
    simp only [SerialBridge.step] at hstep
    split at hstep
    · split at hstep
      · cases hstep
        exact ⟨hsent, hne⟩
      · cases hstep
    · cases hstep
  | klipperRead n =>
    cases hstep
    exact ⟨hsent, hne⟩
  | klipperWrite bytes =>
    cases hstep
    refine ⟨?_, hne⟩
    dsimp only
    rw [← hsent, List.append_assoc]
  | control status =>
    cases hstep
    exact ⟨hsent, hne⟩
  | workerRead n =>
    simp only [SerialBridge.step] at hstep
    split at hstep
    · next hready =>
      cases hstep
      have hworker := worker_packet s.status s.outgoing hready.1
      unfold FromKlipper
      dsimp only
      rw [hworker]
      by_cases hstatus : s.status ≠ 0
      · rw [if_pos (.inl hstatus), if_pos hstatus, Option.toList_none, List.append_nil]
        exact ⟨hsent, hne⟩
      · have hdata : s.outgoing ≠ [] := hready.2.2.resolve_left hstatus
        have htaken : s.outgoing.take n ≠ [] := by
          intro hnil
          rcases List.take_eq_nil_iff.mp hnil with hzero | hnone
          · omega
          · exact hdata hnone
        rw [if_neg (not_or.mpr ⟨hstatus, hdata⟩), if_neg hstatus, Option.toList_some]
        refine ⟨?_, ?_⟩
        · rw [List.flatten_append, List.flatten_singleton, List.append_assoc,
            List.take_append_drop, hsent]
        · rw [List.mem_append, List.mem_singleton]
          exact not_or.mpr ⟨hne, fun hnil => htaken hnil.symm⟩
    · cases hstep

/-! ## Runs -/

/-- **What the serial bridge loses**: in every run in which each flush finds nothing unread and
each write has room for its chunk, Klipper reads the chunks, in order and without gaps; and in
every run the arrays handed to `onDataReceived` are what Klipper wrote.

SOURCE: serial.cpp:32-88,105-149, UsbSerialManager.kt:205-222 -/
theorem bridge_lossless (capacity : Nat) (as : List Action) (s : SerialBridge) :
    (run (restrict step Roomy) (init capacity) as = some s → s.ToKlipper ∧ s.FromKlipper) ∧
      (run step (init capacity) as = some s → s.FromKlipper) := by
  have hfrom : (init capacity).FromKlipper := ⟨rfl, List.not_mem_nil⟩
  refine ⟨fun hrun => ⟨?_, ?_⟩, fun hrun => ?_⟩
  · refine Accounted.toKlipper (run_restrict_invariant ?_ (accounted_init capacity) hrun)
    exact fun s a t h hroomy hstep => h.step hroomy hstep
  · exact run_restrict_invariant (fun s a t h _ hstep => h.step hstep) hfrom hrun
  · exact run_invariant (fun s a t h hstep => h.step hstep) hfrom hrun

/-- The buffer of the `ReadThread` with these bytes at its start. -/
def usbBuffer (bytes : List UInt8) : List UInt8 :=
  bytes ++ List.replicate (4096 - bytes.length) 0

/-- Two chunks, each read before the next is written, and an answer behind a status. -/
def patientReader : List Action :=
  [.usbRead (usbBuffer [126, 7]) 2, .tcflush [], .write 2, .klipperRead 4, .klipperWrite [126, 9],
    .control 2, .workerRead 64, .workerRead 64, .usbRead (usbBuffer [8]) 1, .tcflush [], .write 1,
    .klipperRead 4]

/-- In this run everything arrives. -/
theorem bridge_lossless_patientReader :
    ∃ s, run (restrict step Roomy) (init 4096) patientReader = some s ∧
      s.received = [126, 7, 8] ∧ s.handed = [[126, 9]] ∧ s.ToKlipper ∧ s.FromKlipper := by
  have hrun : (run (restrict step Roomy) (init 4096) patientReader).any
      (fun s => s.received = [126, 7, 8] ∧ s.handed = [[126, 9]]) = true := by decide +kernel
  obtain ⟨s, hs, hread⟩ := (Option.any_eq_true _ _).mp hrun
  obtain ⟨hreceived, hhanded⟩ := of_decide_eq_true hread
  obtain ⟨hto, hfrom⟩ := (bridge_lossless 4096 patientReader s).1 hs
  exact ⟨s, hs, hreceived, hhanded, hto, hfrom⟩

/-- The second chunk is written before Klipper has read the first. -/
def hurriedWriter : List Action :=
  [.usbRead (usbBuffer [126, 7]) 2, .tcflush [], .write 2, .usbRead (usbBuffer [8]) 1, .tcflush [],
    .write 1, .klipperRead 4]

/-- **Not every run is lossless**: the second write discards the first chunk. -/
theorem bridge_not_lossless :
    ¬∀ capacity as s, run step (init capacity) as = some s → s.ToKlipper ∧ s.FromKlipper := by
  intro h
  have hrun : (run step (init 4096) hurriedWriter).any
      (fun s => s.received = [8] ∧ s.chunks = [[126, 7], [8]]) = true := by decide +kernel
  obtain ⟨s, hs, hread⟩ := (Option.any_eq_true _ _).mp hrun
  obtain ⟨hreceived, hchunks⟩ := of_decide_eq_true hread
  have hprefix := (h 4096 hurriedWriter s hs).1.1
  rw [hreceived, hchunks] at hprefix
  exact absurd hprefix (by decide)

end Cream.Model.SerialBridge
