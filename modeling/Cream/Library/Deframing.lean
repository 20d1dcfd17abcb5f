import Mathlib

/-!
# Finding frames in a stream

A receiver looks at the bytes it has so far and finds a whole frame, finds that there is none,
or has to wait for more. Where there is none it discards bytes up to the next synchronisation
byte. `drain` does this byte by byte and records what it finds. A verdict that does not wait is
not changed by bytes that come later (`Format.stable`), so it does not matter in which pieces the
bytes arrive (`drain_append`): what is found in a stream depends on the stream alone. Frames
written one after the other are found (`drain_frames`), a stream in which only frames are found
is these frames (`eq_of_found`), and where a frame ends a receiver that was out of step is in step
again, unless it takes bytes across that end for a frame (`drain_resync`).
-/

set_option autoImplicit false

namespace Cream.Library

namespace Deframing

/-- What the bytes at the start of a buffer are found to be. -/
inductive Verdict where
  | needMoreData
  | error
  | block (length : Nat)
deriving DecidableEq, Repr

structure Format (β : Type*) where
  sync : β
  verdict : List β → Verdict
  verdict_nil : verdict [] = .needMoreData
  block_le : ∀ {buf n}, verdict buf = .block n → 0 < n ∧ n ≤ buf.length
  stable : ∀ {buf} (more), verdict buf ≠ .needMoreData → verdict (buf ++ more) = verdict buf
  /-- nobody waits with this many bytes -/
  maxLength : Nat
  wait_lt : ∀ {buf}, verdict buf = .needMoreData → buf.length < maxLength

/-- What a receiver comes upon: a frame, or bytes that are none and start with this one. -/
inductive Found (β : Type*) where
  | frame (bytes : List β)
  | bad (first : β)
deriving DecidableEq, Repr

/-- What is found, and what the receiver is left with. -/
structure Drained (β : Type*) where
  found : List (Found β)
  needSync : Bool
  rest : List β

variable {β : Type*} [DecidableEq β] (f : Format β)

/-- What is found before the rest of it. -/
def Drained.cons (x : Found β) (d : Drained β) : Drained β := { d with found := x :: d.found }

/-- Several things that are found before the rest of it. -/
def Drained.append (l : List (Found β)) (d : Drained β) : Drained β :=
  { d with found := l ++ d.found }

/-- The receiver; `needSync` says that it is looking for a synchronisation byte. -/
def drain (needSync : Bool) (buf : List β) : Drained β :=
  match needSync, buf with
  | true, [] => ⟨[], true, []⟩
  | true, b :: buf => drain (b ≠ f.sync) buf
  | false, [] => ⟨[], false, []⟩
  | false, b :: buf =>
    match _h : f.verdict (b :: buf) with
    | .needMoreData => ⟨[], false, b :: buf⟩
    | .error => (drain (b ≠ f.sync) buf).cons (.bad b)
    | .block n => (drain false ((b :: buf).drop n)).cons (.frame ((b :: buf).take n))
termination_by buf.length
decreasing_by
  · simp
  · simp
  · have hn := f.block_le _h
    simp
    omega

variable {f}

/-- A byte is skipped. -/
theorem drain_true_cons (b : β) (buf : List β) :
    drain f true (b :: buf) = drain f (b ≠ f.sync) buf := by
  rw [drain]

/-- Nothing is left to be skipped. -/
theorem drain_true_nil : drain f true [] = ⟨[], true, []⟩ := by
  rw [drain]

/-- The receiver waits. -/
theorem drain_wait {buf : List β} (h : f.verdict buf = .needMoreData) :
    drain f false buf = ⟨[], false, buf⟩ := by
  cases buf with
  | nil => rw [drain]
  | cons b buf =>
    rw [drain]
    split
    · rfl
    · next herror =>
      rw [h] at herror
      cases herror
    · next n hblock =>
      rw [h] at hblock
      cases hblock

/-- There is no frame. -/
theorem drain_error {b : β} {buf : List β} (h : f.verdict (b :: buf) = .error) :
    drain f false (b :: buf) = (drain f (b ≠ f.sync) buf).cons (.bad b) := by
  rw [drain]
  split
  · next hwait =>
    rw [h] at hwait
    cases hwait
  · rfl
  · next n hblock =>
    rw [h] at hblock
    cases hblock

/-- There is a frame. -/
theorem drain_block {buf : List β} {n : Nat} (h : f.verdict buf = .block n) :
    drain f false buf = (drain f false (buf.drop n)).cons (.frame (buf.take n)) := by
  cases buf with
  | nil =>
    rw [f.verdict_nil] at h
    cases h
  | cons b buf =>
    rw [drain]
    split
    · next hwait =>
      rw [h] at hwait
      cases hwait
    · next herror =>
      rw [h] at herror
      cases herror
    · next m hblock =>
      rw [h] at hblock
      cases hblock
      rfl

/-- **The pieces in which bytes arrive do not matter.** -/
theorem drain_append (needSync : Bool) (a b : List β) :
    drain f needSync (a ++ b) =
      (drain f (drain f needSync a).needSync ((drain f needSync a).rest ++ b)).append
        (drain f needSync a).found := by
  fun_induction drain f needSync a with
  | case1 => rfl
  | case2 c a ih => rw [List.cons_append, drain_true_cons, ih]
  | case3 => rfl
  | case4 c a h => rfl
  | case5 c a h ih =>
    have herror : f.verdict (c :: (a ++ b)) = .error := by
      rw [← List.cons_append, f.stable b (by rw [h]; simp), h]
    rw [List.cons_append, drain_error herror, ih]
    rfl
  | case6 c a n h ih =>
    have hblock : f.verdict (c :: a ++ b) = .block n := by
      rw [f.stable b (by rw [h]; simp), h]
    have hn := (f.block_le h).2
    rw [drain_block hblock, List.drop_append_of_le_length hn, List.take_append_of_le_length hn, ih]
    rfl

/-- **Frames written one after the other are found.** -/
theorem drain_frames {frames : List (List β)} (h : ∀ x ∈ frames, f.verdict x = .block x.length)
    (rest : List β) :
    drain f false (frames.flatten ++ rest) =
      (drain f false rest).append (frames.map .frame) := by
  induction frames with
  | nil => rfl
  | cons x frames ih =>
    have hx := h x List.mem_cons_self
    have hblock : f.verdict (x ++ (frames.flatten ++ rest)) = .block x.length := by
      rw [f.stable _ (by rw [hx]; simp), hx]
    rw [List.flatten_cons, List.append_assoc, drain_block hblock, List.drop_left, List.take_left,
      ih fun y hy => h y (List.mem_cons_of_mem x hy)]
    rfl

/-- **A stream in which only frames are found** is these frames, and what is left. -/
theorem eq_of_found {frames : List (List β)} {buf : List β}
    (h : (drain f false buf).found = frames.map .frame) :
    buf = frames.flatten ++ (drain f false buf).rest := by
  induction frames generalizing buf with
  | nil =>
    cases hverdict : f.verdict buf with
    | needMoreData => rw [drain_wait hverdict]; rfl
    | block n =>
      rw [drain_block hverdict] at h
      cases h
    | error =>
      cases buf with
      | nil =>
        rw [f.verdict_nil] at hverdict
        cases hverdict
      | cons b buf =>
        rw [drain_error hverdict] at h
        cases h
  | cons x frames ih =>
    cases hverdict : f.verdict buf with
    | needMoreData =>
      rw [drain_wait hverdict] at h
      cases h
    | block n =>
      rw [drain_block hverdict] at h ⊢
      obtain ⟨hx, hrest⟩ := List.cons_eq_cons.mp h
      have hx' : buf.take n = x := by simpa using hx
      rw [List.flatten_cons, ← hx', List.append_assoc]
      conv_lhs => rw [← List.take_append_drop n buf, ih hrest]
      rfl
    | error =>
      cases buf with
      | nil =>
        rw [f.verdict_nil] at hverdict
        cases hverdict
      | cons b buf =>
        rw [drain_error hverdict] at h
        cases h

/-- The search for a synchronisation byte, at one go. -/
theorem drain_search (buf : List β) :
    drain f true buf = match buf.findIdx? (· == f.sync) with
      | some i => drain f false (buf.drop (i + 1))
      | none => ⟨[], true, []⟩ := by
  induction buf with
  | nil => exact drain_true_nil
  | cons b buf ih =>
    rw [drain_true_cons, List.findIdx?_cons]
    by_cases hb : b = f.sync
    · simp [hb]
    · simp only [beq_iff_eq, hb, if_false, ne_eq, not_false_eq_true, decide_true, ih]
      cases buf.findIdx? (· == f.sync) <;> rfl

/-- No frame is found that starts in some bytes and ends behind them. -/
def Separate (f : Format β) (w rest : List β) : Prop :=
  ∀ u n, u <:+ w → u ≠ [] → f.verdict (u ++ rest) = .block n → n ≤ u.length

omit [DecidableEq β] in
/-- Nor in fewer bytes. -/
theorem Separate.suffix {w w' rest : List β} (h : Separate f w rest) (hw : w' <:+ w) :
    Separate f w' rest := fun u n hu => h u n (hu.trans hw)

/-- **A receiver is in step again** behind bytes that end with a synchronisation byte, as every
frame does. -/
theorem drain_resync {w rest : List β} (hend : w.getLast? = some f.sync)
    (hsep : Separate f w rest) (hrest : f.maxLength ≤ rest.length) (needSync : Bool) :
    ∃ l, drain f needSync (w ++ rest) = (drain f false rest).append l := by
  induction hlen : w.length using Nat.strongRecOn generalizing w needSync with
  | ind k ih =>
    have hne : w ≠ [] := by
      rintro rfl
      cases hend
    -- behind some of the bytes the receiver is at the rest, or goes on as before
    have hdrop : ∀ n, 0 < n → n ≤ w.length → ∀ needSync' : Bool,
        (w.drop n = [] → needSync' = false) →
        ∃ l, drain f needSync' (w.drop n ++ rest) = (drain f false rest).append l := by
      intro n hpos hn needSync' hnil
      by_cases hempty : w.drop n = []
      · rw [hempty, hnil hempty]
        exact ⟨[], rfl⟩
      · refine ih _ ?_ ?_ (hsep.suffix (List.drop_suffix n w)) needSync' rfl
        · rw [List.length_drop]
          omega
        · rw [← hend, List.getLast?_drop, if_neg fun h => hempty (List.drop_eq_nil_of_le h)]
    obtain ⟨b, w, rfl⟩ := List.exists_cons_of_ne_nil hne
    have hone : ∃ l, drain f (b ≠ f.sync) (w ++ rest) = (drain f false rest).append l := by
      refine hdrop 1 (by simp) (by simp) _ fun hnil => ?_
      have hw : w = [] := hnil
      subst hw
      simpa using hend
    cases needSync with
    | true =>
      rw [List.cons_append, drain_true_cons]
      exact hone
    | false =>
      cases hverdict : f.verdict (b :: w ++ rest) with
      | needMoreData =>
        have hshort := f.wait_lt hverdict
        rw [List.length_append] at hshort
        omega
      | error =>
        obtain ⟨l, hl⟩ := hone
        rw [List.cons_append] at hverdict ⊢
        exact ⟨.bad b :: l, by rw [drain_error hverdict, hl]; rfl⟩
      | block n =>
        have hn := hsep (b :: w) n List.suffix_rfl (by simp) hverdict
        have hpos := (f.block_le hverdict).1
        obtain ⟨l, hl⟩ := hdrop n hpos hn false fun _ => rfl
        refine ⟨.frame ((b :: w ++ rest).take n) :: l, ?_⟩
        rw [drain_block hverdict, List.drop_append_of_le_length hn, hl]
        rfl

end Deframing

end Cream.Library
