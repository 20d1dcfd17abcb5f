import Cream.Model.TimelapseEncoder
import Mathlib.Data.Nat.Count

/-!
# The times of a timelapse

`processTimelapse` in `WebService.kt`: whatever the codec's delays are, each frame comes out
once and in order. Its time is what the codec has stamped it with, or, if that is zero, the time
of the frame that was fed in last. `timelapse_timed_iff` says for which codecs these are the times
of the frames.
-/

set_option autoImplicit false

namespace Cream.Model.TimelapseEncoder

open Cream.Library.Transition

/-! ## The codec -/

/-- The time of the sample in an answer, if it has one. -/
def stamp : Answer → Option Int
  | .buffer info =>
    if info.codecConfig ∨ info.size = 0 then none else some info.presentationTimeUs
  | _ => none

/-- The end of the stream. -/
def isEnd : Answer → Bool
  | .buffer info => !info.codecConfig && info.endOfStream
  | _ => false

/-- How many samples the codec has returned before a call. -/
def samples (answers : Nat → Answer) (n : Nat) : Nat :=
  Nat.count (fun m => (stamp (answers m)).isSome) n

/-- How many of the frames were fed in before a call: one more with every time the codec has
nothing to return. -/
def fed (total : Nat) (answers : Nat → Answer) (n : Nat) : Nat :=
  min total (1 + Nat.count (fun m => answers m = .tryAgainLater) n)

variable {File Bitmap : Type}

/-- What a codec can answer: its format once and before the first sample, a sample of what was
drawn, and the end of the stream, with the last sample or after it, when it was signalled. -/
def Allows (s : TimelapseEncoder Bitmap) : Answer → Prop
  | .tryAgainLater => True
  | .outputFormatChanged => s.muxerStarted = false
  | .other => True
  | .buffer info => info.codecConfig = false →
    (info.size ≠ 0 → s.muxerStarted = true ∧ s.surface ≠ []) ∧
      (info.size = 0 → info.endOfStream = true) ∧
      (info.endOfStream = true →
        s.inputDone = true ∧ s.surface.length = if info.size = 0 then 0 else 1)

/-- The answers are those of a codec: it goes on to return what it has, or that it has nothing,
it ends the stream when that was signalled, and its times do not decrease. -/
structure Encodes (job : TimelapseJob File Bitmap) (answers : Nat → Answer) : Prop where
  allows : ∀ n s, before job answers n = some s → s.phase = .draining → s.Allows (answers n)
  drains : ∀ n, ∃ m, n ≤ m ∧
    (answers m = .tryAgainLater ∨ (stamp (answers m)).isSome ∨ isEnd (answers m))
  ends : ∀ n s, before job answers n = some s → s.inputDone = true →
    ∃ m, n ≤ m ∧ isEnd (answers m) = true
  stamps : ∀ m n p q, m ≤ n → stamp (answers m) = some p → stamp (answers n) = some q → p ≤ q

/-- When a frame is due, in microseconds. -/
def due (fps : Int) (k : Nat) : Int := ((k : Int) * 1000000).tdiv fps

/-- The encoding ends, each frame is written once, in order, and when it is due. -/
def Timed (job : TimelapseJob File Bitmap) (bitmaps : List Bitmap) (answers : Nat → Answer) :
    Prop :=
  ∃ n s, before job answers n = some s ∧ s.phase = .finished ∧
    s.written = bitmaps.mapIdx fun k bitmap => (bitmap, due job.fps k)

/-- The sample in an answer has the time of its frame, or no time while the frame that was fed
in last is due at the same time. -/
def StampedAt (fps : Int) (total : Nat) (answers : Nat → Answer) (n : Nat) : Prop :=
  ∀ p, stamp (answers n) = some p →
    (p ≠ 0 → p = due fps (samples answers n)) ∧
      (p = 0 → due fps (fed total answers n - 1) = due fps (samples answers n))

instance (fps : Int) (total : Nat) (answers : Nat → Answer) (n : Nat) :
    Decidable (StampedAt fps total answers n) :=
  inferInstanceAs (Decidable (∀ p ∈ stamp (answers n), _ ∧ _))

/-- All samples of the frames are stamped so. -/
def Stamped (fps : Int) (total : Nat) (answers : Nat → Answer) : Prop :=
  ∀ n, samples answers n < total → StampedAt fps total answers n

variable {job : TimelapseJob File Bitmap} {bitmaps : List Bitmap} {answers : Nat → Answer}
  {s t : TimelapseEncoder Bitmap} {n : Nat}

/-- The first picture is due at once. -/
theorem due_zero (fps : Int) : due fps 0 = 0 := by simp [due]

/-- An answer with a time stamp is a sample. -/
theorem samples_succ (answers : Nat → Answer) (n : Nat) :
    samples answers (n + 1) = samples answers n + if (stamp (answers n)).isSome then 1 else 0 :=
  Nat.count_succ _ n

/-- The time of a sample is that of its frame just when it is stamped so. -/
theorem sampleTime_eq_due_iff {fps : Int} {frames k : Nat} {p : Int} (hk : k < frames) :
    sampleTime fps frames p = due fps k ↔
      (p ≠ 0 → p = due fps k) ∧ (p = 0 → due fps (frames - 1) = due fps k) := by
  unfold sampleTime
  by_cases hp : p = 0
  · by_cases hone : frames > 1
    · have hcast : (frames : Int) - 1 = ((frames - 1 : Nat) : Int) := by omega
      rw [if_pos ⟨hp, hone⟩, hcast]
      exact ⟨fun h => ⟨fun hne => absurd hp hne, fun _ => h⟩, fun h => h.2 hp⟩
    · have hfirst : k = 0 := by omega
      have hlast : frames - 1 = k := by omega
      rw [if_neg fun h => hone h.2, hlast, hfirst, due_zero]
      exact ⟨fun h => ⟨fun hne => absurd h hne, fun _ => rfl⟩, fun _ => hp⟩
  · rw [if_neg fun h => hp h.1]
    exact ⟨fun h => ⟨fun _ => h, fun hzero => absurd hzero hp⟩, fun h => h.1 hp⟩

/-! ## One answer -/

/-- What the loop has done before a call. -/
structure Progressed (job : TimelapseJob File Bitmap) (bitmaps : List Bitmap)
    (answers : Nat → Answer) (n : Nat) (s : TimelapseEncoder Bitmap) : Prop where
  index : s.frameIndex = fed bitmaps.length answers n
  input : s.inputDone = true ↔ s.frameIndex = bitmaps.length
  order : s.written.map Prod.fst ++ s.surface = bitmaps.take s.frameIndex
  count : s.written.length = samples answers n
  muxer : s.written ≠ [] → s.muxerStarted = true
  phase : s.phase ≠ .failed
  done : s.phase = .finished → s.surface = [] ∧ s.inputDone = true
  times : s.written.map Prod.snd = (List.range s.written.length).map (due job.fps) ↔
    ∀ m < n, StampedAt job.fps bitmaps.length answers m

/-- The next frame is drawn, if there is one. -/
theorem feed_eq (hframes : job.frames.map job.decodeFile = bitmaps.map some)
    (hinput : s.inputDone = true ↔ s.frameIndex = bitmaps.length) :
    feed job s = match bitmaps[s.frameIndex]? with
      | none => s
      | some bitmap => { s with
        surface := s.surface ++ [bitmap]
        frameIndex := s.frameIndex + 1
        inputDone := s.frameIndex + 1 ≥ bitmaps.length } := by
  have hlength : job.frames.length = bitmaps.length := by
    simpa using congrArg List.length hframes
  have hlookup : (job.frames[s.frameIndex]?).map job.decodeFile =
      (bitmaps[s.frameIndex]?).map some := by
    rw [← List.getElem?_map, hframes, List.getElem?_map]
  unfold feed
  by_cases hdone : s.inputDone = true
  · have hnone : bitmaps[s.frameIndex]? = none :=
      List.getElem?_eq_none (Nat.le_of_eq (hinput.mp hdone).symm)
    rw [if_pos hdone, hnone]
  · rw [if_neg hdone]
    cases hbitmap : bitmaps[s.frameIndex]? with
    | none =>
      rw [hbitmap, Option.map_none, Option.map_eq_none_iff] at hlookup
      rw [hlookup]
    | some bitmap =>
      rw [hbitmap, Option.map_some] at hlookup
      obtain ⟨frameFile, hfile, hdecoded⟩ := Option.map_eq_some_iff.mp hlookup
      rw [hfile]
      dsimp only
      rw [hdecoded, Option.toList_some, hlength]

/-- Only while the codec asks for more it is fed. -/
theorem fed_succ_of_ne (total : Nat) (h : answers n ≠ .tryAgainLater) :
    fed total answers (n + 1) = fed total answers n := by
  unfold fed
  rw [Nat.count_succ, if_neg h, Nat.add_zero]

/-- Then it is fed one picture more, as long as there is one. -/
theorem fed_succ_tryAgainLater (total : Nat) (h : answers n = .tryAgainLater) :
    fed total answers (n + 1) = min total (fed total answers n + 1) := by
  unfold fed
  rw [Nat.count_succ, if_pos h]
  omega

/-- What has been fed stays fed. -/
theorem fed_mono (total : Nat) {m n : Nat} (h : m ≤ n) :
    fed total answers m ≤ fed total answers n := by
  have hcount := Nat.count_monotone (fun m => answers m = .tryAgainLater) h
  unfold fed
  omega

/-- An answer without a time stamp is no sample. -/
theorem samples_succ_of_none (h : stamp (answers n) = none) :
    samples answers (n + 1) = samples answers n := by
  rw [samples_succ, h]
  rfl

/-- No more pictures are drawn than there are. -/
theorem Progressed.index_le (h : Progressed job bitmaps answers n s) :
    s.frameIndex ≤ bitmaps.length := by
  rw [h.index]
  exact Nat.min_le_left _ _

/-- Each is in the file or in the surface. -/
theorem Progressed.length_add (h : Progressed job bitmaps answers n s) :
    s.written.length + s.surface.length = s.frameIndex := by
  have hlength := congrArg List.length h.order
  rw [List.length_append, List.length_map, List.length_take] at hlength
  exact hlength.trans (Nat.min_eq_left h.index_le)

/-- An answer without a sample writes nothing. -/
theorem Progressed.times_unstamped (h : Progressed job bitmaps answers n s)
    (hstamp : stamp (answers n) = none) :
    s.written.map Prod.snd = (List.range s.written.length).map (due job.fps) ↔
      ∀ m < n + 1, StampedAt job.fps bitmaps.length answers m := by
  have hnone : StampedAt job.fps bitmaps.length answers n := by
    intro p hp
    rw [hstamp] at hp
    cases hp
  rw [h.times, Nat.forall_lt_succ_right]
  exact ⟨fun hall => ⟨hall, hnone⟩, fun hall => hall.1⟩

/-- An answer that changes neither the frames nor the samples. -/
theorem Progressed.quiet (h : Progressed job bitmaps answers n s)
    (hstamp : stamp (answers n) = none) (hanswer : answers n ≠ .tryAgainLater)
    (phase : EncoderPhase) (hphase : phase ≠ .failed)
    (hdone : phase = .finished → s.surface = [] ∧ s.inputDone = true) (muxerStarted : Bool)
    (hmuxer : s.written ≠ [] → muxerStarted = true) :
    Progressed job bitmaps answers (n + 1)
      { s with phase := phase, muxerStarted := muxerStarted } where
  index := h.index.trans (fed_succ_of_ne _ hanswer).symm
  input := h.input
  order := h.order
  count := h.count.trans (samples_succ_of_none hstamp).symm
  muxer := hmuxer
  phase := hphase
  done := hdone
  times := h.times_unstamped hstamp

/-- The codec has nothing to return, and the next frame is fed in. -/
theorem Progressed.fed (h : Progressed job bitmaps answers n s)
    (hframes : job.frames.map job.decodeFile = bitmaps.map some) (hphase : s.phase = .draining)
    (hanswer : answers n = .tryAgainLater) :
    Progressed job bitmaps answers (n + 1) (feed job s) := by
  have hstamp : stamp (answers n) = none := by rw [hanswer]; rfl
  have hindex := fed_succ_tryAgainLater bitmaps.length hanswer
  rw [← h.index] at hindex
  have hcount := h.count.trans (samples_succ_of_none hstamp).symm
  rw [feed_eq hframes h.input]
  cases hbitmap : bitmaps[s.frameIndex]? with
  | none =>
    have hall : s.frameIndex = bitmaps.length :=
      Nat.le_antisymm h.index_le (List.getElem?_eq_none_iff.mp hbitmap)
    exact ⟨by dsimp only; omega, h.input, h.order, hcount, h.muxer, h.phase, h.done,
      h.times_unstamped hstamp⟩
  | some bitmap =>
    obtain ⟨hlt, -⟩ := List.getElem?_eq_some_iff.mp hbitmap
    have hnext : s.frameIndex + 1 = TimelapseEncoder.fed bitmaps.length answers (n + 1) := by
      rw [hindex]
      exact (Nat.min_eq_right hlt).symm
    refine ⟨hnext, ?_, ?_, hcount, h.muxer, h.phase, ?_, h.times_unstamped hstamp⟩
    · dsimp only
      rw [decide_eq_true_iff]
      omega
    · dsimp only
      rw [← List.append_assoc, h.order, List.take_add_one, hbitmap, Option.toList_some]
    · intro hfinished
      rw [hphase] at hfinished
      cases hfinished

/-- A sample is written. -/
theorem Progressed.wrote {bitmap : Bitmap} {surface : List Bitmap} {p : Int}
    (h : Progressed job bitmaps answers n s) (hstamp : stamp (answers n) = some p)
    (hsurface : s.surface = bitmap :: surface) (hmuxer : s.muxerStarted = true)
    (phase : EncoderPhase) (hphase : phase ≠ .failed)
    (hdone : phase = .finished → surface = [] ∧ s.inputDone = true) :
    Progressed job bitmaps answers (n + 1)
      { s with
        phase := phase
        surface := surface
        written := s.written ++ [(bitmap, sampleTime job.fps s.frameIndex p)] } where
  index := by
    refine h.index.trans (fed_succ_of_ne _ ?_).symm
    intro hanswer
    rw [hanswer] at hstamp
    cases hstamp
  input := h.input
  order := by
    dsimp only
    rw [List.map_append, List.append_assoc]
    have horder := h.order
    rw [hsurface] at horder
    exact horder
  count := by
    dsimp only
    rw [List.length_append, h.count, samples_succ, hstamp]
    rfl
  muxer _ := hmuxer
  phase := hphase
  done := hdone
  times := by
    have hlt : samples answers n < s.frameIndex := by
      have hlength := h.length_add
      rw [hsurface, List.length_cons, h.count] at hlength
      omega
    have hnow : sampleTime job.fps s.frameIndex p = due job.fps (samples answers n) ↔
        StampedAt job.fps bitmaps.length answers n := by
      rw [sampleTime_eq_due_iff hlt, h.index]
      constructor
      · intro hp q hq
        rw [hstamp, Option.some.injEq] at hq
        rwa [← hq]
      · intro hall
        exact hall p hstamp
    dsimp only
    rw [Nat.forall_lt_succ_right, ← h.times, ← hnow, List.map_append, List.length_append,
      List.length_singleton, List.range_succ, List.map_append, h.count]
    constructor
    · intro heq
      obtain ⟨hbefore, hlast⟩ := List.append_inj' heq rfl
      exact ⟨hbefore, List.singleton_inj.mp hlast⟩
    · rintro ⟨hbefore, hlast⟩
      rw [hbefore, List.map_singleton, List.map_singleton]
      exact congrArg (_ ++ [·]) hlast

/-- When everything was fed in and has come out, the format is known. -/
theorem Progressed.started (h : Progressed job bitmaps answers n s) (hne : bitmaps ≠ [])
    (hinput : s.inputDone = true) (hsurface : s.surface.length = 0) : s.muxerStarted = true := by
  have hlength := h.length_add
  rw [hsurface, h.input.mp hinput] at hlength
  refine h.muxer fun hnone => ?_
  rw [hnone] at hlength
  exact hne (List.length_eq_zero_iff.mp hlength.symm)

/-- A buffer: the configuration of the codec, a sample, or the empty end of the stream. -/
theorem Progressed.buffer {info : BufferInfo} (h : Progressed job bitmaps answers n s)
    (hne : bitmaps ≠ []) (hfps : 1 ≤ job.fps) (hanswer : answers n = .buffer info)
    (hphase : s.phase = .draining) (hallowed : s.Allows (.buffer info))
    (hstep : step job s (.buffer info) = some t) :
    Progressed job bitmaps answers (n + 1) t := by
  have hrunning : ¬s.phase ≠ .draining := not_not.mpr hphase
  have hother : answers n ≠ .tryAgainLater := by rw [hanswer]; exact Answer.noConfusion
  have hstamp : stamp (answers n) = if info.codecConfig ∨ info.size = 0 then none
    else some info.presentationTimeUs := by rw [hanswer]; rfl
  unfold TimelapseEncoder.step at hstep
  rw [if_neg hrunning] at hstep
  dsimp only at hstep
  by_cases hconfig : info.codecConfig = true
  · rw [if_pos hconfig, Option.some.injEq] at hstep
    rw [if_pos (.inl hconfig)] at hstamp
    rw [← hstep]
    exact h.quiet hstamp hother s.phase h.phase h.done s.muxerStarted h.muxer
  · obtain ⟨hsample, hempty, hend⟩ := hallowed (Bool.eq_false_iff.mpr hconfig)
    rw [if_neg hconfig] at hstep
    by_cases hsize : info.size = 0
    · -- the end of the stream, after the last sample
      have heos : info.endOfStream = true := hempty hsize
      obtain ⟨hinput, hsurface⟩ := hend heos
      rw [if_pos hsize] at hsurface
      have hstarted : ¬(!s.muxerStarted) = true := by
        rw [h.started hne hinput hsurface]
        decide
      rw [if_neg hstarted, if_pos hsize, if_pos heos, Option.some.injEq] at hstep
      rw [if_pos (.inr hsize)] at hstamp
      rw [← hstep]
      exact h.quiet hstamp hother .finished EncoderPhase.noConfusion
        (fun _ => ⟨List.length_eq_zero_iff.mp hsurface, hinput⟩) s.muxerStarted h.muxer
    · obtain ⟨hstarted, hsurface⟩ := hsample hsize
      obtain ⟨bitmap, surface, hcons⟩ := List.exists_cons_of_ne_nil hsurface
      have hopen : ¬(!s.muxerStarted) = true := by
        rw [hstarted]
        decide
      have hdivides : ¬(info.presentationTimeUs = 0 ∧ s.frameIndex > 1 ∧ job.fps = 0) := by
        omega
      rw [if_neg hopen, if_neg hsize, hcons] at hstep
      dsimp only at hstep
      rw [if_neg hdivides, Option.some.injEq] at hstep
      rw [if_neg fun hor => hor.elim hconfig hsize] at hstamp
      rw [← hstep]
      refine h.wrote hstamp hcons hstarted _ ?_ fun hfinished => ?_
      · split <;> exact EncoderPhase.noConfusion
      · split at hfinished
        · next heos =>
          obtain ⟨hinput, hlength⟩ := hend heos
          rw [if_neg hsize, hcons, List.length_cons] at hlength
          exact ⟨List.length_eq_zero_iff.mp (Nat.succ.inj hlength), hinput⟩
        · cases hfinished

/-- **One answer of a codec**: what holds before a call holds before the next. -/
theorem Progressed.step (h : Progressed job bitmaps answers n s)
    (hframes : job.frames.map job.decodeFile = bitmaps.map some) (hne : bitmaps ≠ [])
    (hfps : 1 ≤ job.fps) (hallows : s.phase = .draining → s.Allows (answers n))
    (hstep : step job s (answers n) = some t) :
    Progressed job bitmaps answers (n + 1) t := by
  by_cases hphase : s.phase = .draining
  · have hallowed := hallows hphase
    have hrunning : ¬s.phase ≠ .draining := not_not.mpr hphase
    cases hanswer : answers n with
    | buffer info =>
      rw [hanswer] at hstep hallowed
      exact h.buffer hne hfps hanswer hphase hallowed hstep
    | tryAgainLater =>
      rw [hanswer, TimelapseEncoder.step, if_neg hrunning] at hstep
      cases hstep
      exact h.fed hframes hphase hanswer
    | outputFormatChanged =>
      have hstamp : stamp (answers n) = none := by rw [hanswer]; rfl
      have hother : answers n ≠ .tryAgainLater := by rw [hanswer]; exact Answer.noConfusion
      have hnew : ¬s.muxerStarted = true := by
        rw [hanswer] at hallowed
        exact Bool.eq_false_iff.mp hallowed
      rw [hanswer, TimelapseEncoder.step, if_neg hrunning, if_neg hnew,
        Option.some.injEq] at hstep
      rw [← hstep]
      exact h.quiet hstamp hother s.phase h.phase h.done true fun _ => rfl
    | other =>
      have hstamp : stamp (answers n) = none := by rw [hanswer]; rfl
      have hother : answers n ≠ .tryAgainLater := by rw [hanswer]; exact Answer.noConfusion
      rw [hanswer, TimelapseEncoder.step, if_neg hrunning] at hstep
      cases hstep
      exact h.quiet hstamp hother s.phase h.phase h.done s.muxerStarted h.muxer
  · unfold TimelapseEncoder.step at hstep
    rw [if_pos hphase] at hstep
    cases hstep

/-! ## The whole encoding -/

/-- One answer more is one step more. -/
theorem before_succ {t : TimelapseEncoder Bitmap} :
    before job answers (n + 1) = some t ↔
      ∃ s, before job answers n = some s ∧ step job s (answers n) = some t := by
  unfold before
  rw [List.range_succ, List.map_append, run_append_eq_some]
  simp only [List.map_singleton, run_cons_eq_some, run_nil, Option.some.injEq, exists_eq_right]

/-- A codec can be asked for what it allows. -/
theorem Allows.step {a : Answer} (hphase : s.phase = .draining) (h : s.Allows a) :
    ∃ t, step job s a = some t := by
  have hrunning : ¬s.phase ≠ .draining := not_not.mpr hphase
  unfold TimelapseEncoder.step
  rw [if_neg hrunning]
  cases a with
  | tryAgainLater => exact ⟨_, rfl⟩
  | outputFormatChanged =>
    dsimp only
    split <;> exact ⟨_, rfl⟩
  | other => exact ⟨_, rfl⟩
  | buffer info =>
    dsimp only
    split
    · exact ⟨_, rfl⟩
    · next hconfig =>
      split
      · exact ⟨_, rfl⟩
      · split
        · exact ⟨_, rfl⟩
        · next hsize =>
          have hsurface := ((h (Bool.eq_false_iff.mpr hconfig)).1 hsize).2
          obtain ⟨bitmap, surface, hcons⟩ := List.exists_cons_of_ne_nil hsurface
          rw [hcons]
          dsimp only
          split <;> exact ⟨_, rfl⟩

/-- The stream ends after everything was fed in. -/
theorem Allows.isEnd {a : Answer} (h : s.Allows a) (ha : TimelapseEncoder.isEnd a = true) :
    s.inputDone = true := by
  cases a with
  | tryAgainLater => cases ha
  | outputFormatChanged => cases ha
  | other => cases ha
  | buffer info =>
    obtain ⟨hconfig, heos⟩ := (Bool.and_eq_true _ _).mp ha
    exact ((h ((Bool.not_eq_true' _).mp hconfig)).2.2 heos).1

/-- After the end of the stream nothing is asked for. -/
theorem step_isEnd {a : Answer} (ha : isEnd a = true) (hstep : step job s a = some t) :
    t.phase ≠ .draining := by
  cases a with
  | tryAgainLater => cases ha
  | outputFormatChanged => cases ha
  | other => cases ha
  | buffer info =>
    obtain ⟨hconfig, heos⟩ := (Bool.and_eq_true _ _).mp ha
    unfold step at hstep
    simp only [(Bool.not_eq_true' _).mp hconfig, heos, Bool.false_eq_true, if_false, if_true]
      at hstep
    split at hstep
    · cases hstep
    · split at hstep
      · cases hstep
        exact EncoderPhase.noConfusion
      · split at hstep
        · cases hstep
          exact EncoderPhase.noConfusion
        · split at hstep
          · cases hstep
          · split at hstep
            · cases hstep
              exact EncoderPhase.noConfusion
            · cases hstep
              exact EncoderPhase.noConfusion

/-- With a size the first frame is fed in. -/
theorem start_progressed (hframes : job.frames.map job.decodeFile = bitmaps.map some)
    (hne : bitmaps ≠ []) (hsize : 0 < job.encW ∧ 0 < job.encH) (answers : Nat → Answer) :
    Progressed job bitmaps answers 0 (start job) := by
  obtain ⟨bitmap, rest, rfl⟩ := List.exists_cons_of_ne_nil hne
  obtain ⟨first, files, hfiles⟩ : ∃ first files, job.frames = first :: files := by
    refine List.exists_cons_of_ne_nil fun hnone => ?_
    rw [hnone] at hframes
    cases hframes
  have hfirst : job.decodeFile first ≠ none := by
    rw [hfiles, List.map_cons, List.map_cons, List.cons.injEq] at hframes
    rw [hframes.1]
    exact Option.some_ne_none bitmap
  have hpositive : ¬(job.encW ≤ 0 ∨ job.encH ≤ 0) := by omega
  have hstart : start job =
      feed job ⟨.draining, 0, false, false, ([] : List Bitmap), []⟩ := by
    unfold start
    rw [hfiles]
    dsimp only
    rw [if_neg hfirst, if_neg hpositive]
  rw [hstart, feed_eq hframes (by simp), List.getElem?_cons_zero]
  have hlength : 1 ≤ (bitmap :: rest).length := Nat.succ_pos _
  refine ⟨?_, ?_, rfl, rfl, fun h => absurd rfl h, EncoderPhase.noConfusion, ?_, ?_⟩
  · exact (Nat.min_eq_right hlength).symm
  · dsimp only
    rw [decide_eq_true_iff]
    omega
  · intro h
    cases h
  · exact ⟨fun _ m hm => absurd hm (Nat.not_lt_zero m), fun _ => rfl⟩

/-- Without a size nothing is encoded. -/
theorem not_timed_of_size (hsize : ¬(0 < job.encW ∧ 0 < job.encH)) :
    ¬Timed job bitmaps answers := by
  have hstart : (start job).phase = .failed := by
    unfold start
    split
    · rfl
    · split
      · rfl
      · rw [if_pos (by omega)]
  have hall : ∀ n s, before job answers n = some s → s = start job := by
    intro n
    induction n with
    | zero =>
      intro s hs
      exact (Option.some.inj hs).symm
    | succ n ih =>
      intro t ht
      obtain ⟨s, hs, hstep⟩ := before_succ.mp ht
      rw [ih s hs] at hstep
      unfold step at hstep
      rw [hstart] at hstep
      cases hstep
  rintro ⟨n, s, hs, hfinished, -⟩
  rw [hall n s hs, hstart] at hfinished
  cases hfinished

/-- While the loop is draining it comes to the next call, or ends. -/
theorem Encodes.before_next (h : Encodes job answers) (hs : before job answers n = some s)
    (hphase : s.phase = .draining) :
    ∃ t, step job s (answers n) = some t ∧ before job answers (n + 1) = some t := by
  obtain ⟨t, ht⟩ := (h.allows n s hs hphase).step hphase
  exact ⟨t, ht, before_succ.mpr ⟨s, hs, ht⟩⟩

section Encoding

variable (hframes : job.frames.map job.decodeFile = bitmaps.map some) (hne : bitmaps ≠ [])
  (hfps : 1 ≤ job.fps) (hsize : 0 < job.encW ∧ 0 < job.encH) (hencodes : Encodes job answers)

include hframes hne hfps hsize hencodes

/-- What holds before every call. -/
theorem progressed (hs : before job answers n = some s) : Progressed job bitmaps answers n s := by
  induction n generalizing s with
  | zero =>
    cases hs
    exact start_progressed hframes hne hsize answers
  | succ n ih =>
    obtain ⟨s', hs', hstep⟩ := before_succ.mp hs
    exact (ih hs').step hframes hne hfps (hencodes.allows n s' hs') hstep

/-- Either all frames are fed in at some time, or the codec is asked for ever. -/
theorem inputs (hall : ∀ n, ∃ s, before job answers n = some s ∧ s.phase = .draining) :
    ∃ n s, before job answers n = some s ∧ s.inputDone = true := by
  by_contra hnever
  have hbound : ∀ n, samples answers n ≤ fed bitmaps.length answers n ∧
      fed bitmaps.length answers n < bitmaps.length := by
    intro n
    obtain ⟨s, hs, -⟩ := hall n
    have h := progressed hframes hne hfps hsize hencodes hs
    have hlength := h.length_add
    have hopen : s.frameIndex ≠ bitmaps.length := fun heq => hnever ⟨n, s, hs, h.input.mpr heq⟩
    have hle := h.index_le
    rw [h.count] at hlength
    rw [← h.index]
    omega
  -- each answer that is not idle makes the codec take or return a picture
  have hgrow : ∀ k, ∃ n, k ≤ fed bitmaps.length answers n + samples answers n := by
    intro k
    induction k with
    | zero => exact ⟨0, Nat.zero_le _⟩
    | succ k ih =>
      obtain ⟨n, hn⟩ := ih
      obtain ⟨m, hm, hanswer⟩ := hencodes.drains n
      have hfed : fed bitmaps.length answers n ≤ fed bitmaps.length answers m := fed_mono _ hm
      have hsamples : samples answers n ≤ samples answers m := Nat.count_monotone _ hm
      refine ⟨m + 1, ?_⟩
      rcases hanswer with hagain | hsample | hend
      · have hnext := fed_succ_tryAgainLater bitmaps.length hagain
        have hlater : samples answers m ≤ samples answers (m + 1) :=
          Nat.count_monotone _ (Nat.le_succ m)
        have hlt := (hbound m).2
        omega
      · have hlater : fed bitmaps.length answers m ≤ fed bitmaps.length answers (m + 1) :=
          fed_mono _ (Nat.le_succ m)
        have hnext := samples_succ answers m
        rw [if_pos hsample] at hnext
        omega
      · obtain ⟨s, hs, hphase⟩ := hall m
        have hinput := (hencodes.allows m s hs hphase).isEnd hend
        exact absurd ⟨m, s, hs, hinput⟩ hnever
  obtain ⟨n, hn⟩ := hgrow (2 * bitmaps.length)
  have hlast := hbound n
  omega

/-- **The encoding ends**: when all frames are fed in the end of the stream comes. -/
theorem finishes : ∃ n s, before job answers n = some s ∧ s.phase = .finished := by
  by_contra hnever
  have hphase : ∀ n s, before job answers n = some s → s.phase = .draining := by
    intro n s hs
    cases hp : s.phase with
    | draining => rfl
    | finished => exact absurd ⟨n, s, hs, hp⟩ hnever
    | failed => exact absurd hp (progressed hframes hne hfps hsize hencodes hs).phase
  have hall : ∀ n, ∃ s, before job answers n = some s ∧ s.phase = .draining := by
    intro n
    induction n with
    | zero => exact ⟨start job, rfl, hphase 0 _ rfl⟩
    | succ n ih =>
      obtain ⟨s, hs, hdraining⟩ := ih
      obtain ⟨t, -, ht⟩ := hencodes.before_next hs hdraining
      exact ⟨t, ht, hphase _ t ht⟩
  obtain ⟨n, s, hs, hinput⟩ := inputs hframes hne hfps hsize hencodes hall
  obtain ⟨m, -, hend⟩ := hencodes.ends n s hs hinput
  obtain ⟨u, hu, hdraining⟩ := hall m
  obtain ⟨t, hstep, ht⟩ := hencodes.before_next hu hdraining
  exact step_isEnd hend hstep (hphase _ t ht)

end Encoding

/-- A list of samples is that of the frames when its pictures and its times are. -/
theorem eq_mapIdx_iff (due : Nat → Int) (written : List (Bitmap × Int)) (bitmaps : List Bitmap) :
    written = bitmaps.mapIdx (fun k bitmap => (bitmap, due k)) ↔
      written.map Prod.fst = bitmaps ∧
        written.map Prod.snd = (List.range written.length).map due := by
  constructor
  · intro h
    refine ⟨?_, ?_⟩
    · rw [h]
      exact List.ext_getElem (by simp) (by simp)
    · rw [h]
      exact List.ext_getElem (by simp) (by simp)
  · rintro ⟨hfst, hsnd⟩
    have hlength : written.length = bitmaps.length := by rw [← hfst, List.length_map]
    refine List.ext_getElem (by simp [hlength]) fun k hk hk' => ?_
    have hpicture : written[k].1 = bitmaps[k] := by simp [← hfst]
    have htime : written[k].2 = due k := by
      have hget := congrArg (fun l => l[k]?) hsnd
      simpa [hk] using hget
    rw [List.getElem_mapIdx, ← hpicture, ← htime]

/-- When the encoding has ended every frame has been written. -/
theorem Progressed.all (h : Progressed job bitmaps answers n s) (hfinished : s.phase = .finished) :
    s.written.map Prod.fst = bitmaps := by
  obtain ⟨hsurface, hinput⟩ := h.done hfinished
  have horder := h.order
  rwa [hsurface, List.append_nil, h.input.mp hinput, List.take_length] at horder

/-- **The times of a timelapse**: for every list of frames that can be decoded and every codec
the encoding ends with each frame written once, in order, and when it is due, exactly when the
video has a size and each sample is stamped with the time its frame is due, or stamped zero and
returned while the frame that was fed in last is due at the same time.

SOURCE: WebService.kt:344-432 -/
theorem timelapse_timed_iff (hframes : job.frames.map job.decodeFile = bitmaps.map some)
    (hne : bitmaps ≠ []) (hfps : 1 ≤ job.fps) (hencodes : Encodes job answers) :
    Timed job bitmaps answers ↔
      (0 < job.encW ∧ 0 < job.encH) ∧ Stamped job.fps bitmaps.length answers := by
  by_cases hsize : 0 < job.encW ∧ 0 < job.encH
  · constructor
    · rintro ⟨n, s, hs, hfinished, hwritten⟩
      refine ⟨hsize, fun m hm => ?_⟩
      have h := progressed hframes hne hfps hsize hencodes hs
      have htimes := h.times.mp ((eq_mapIdx_iff _ _ _).mp hwritten).2
      have htotal : samples answers n = bitmaps.length := by
        rw [← h.count, hwritten, List.length_mapIdx]
      rcases Nat.lt_or_ge m n with hlt | hge
      · exact htimes m hlt
      · have hsamples : samples answers n ≤ samples answers m := Nat.count_monotone _ hge
        omega
    · rintro ⟨-, hstamped⟩
      obtain ⟨n, s, hs, hfinished⟩ := finishes hframes hne hfps hsize hencodes
      have h := progressed hframes hne hfps hsize hencodes hs
      have hall := h.all hfinished
      refine ⟨n, s, hs, hfinished, (eq_mapIdx_iff _ _ _).mpr ⟨hall, h.times.mpr ?_⟩⟩
      intro m hm p hp
      have htotal : samples answers n = bitmaps.length := by
        rw [← h.count, ← hall, List.length_map]
      have hnext := samples_succ answers m
      rw [if_pos (by rw [hp]; rfl)] at hnext
      have hsamples : samples answers (m + 1) ≤ samples answers n := Nat.count_monotone _ hm
      exact hstamped m (by omega) p hp
  · exact ⟨fun h => absurd h (not_timed_of_size hsize), fun h => absurd h.1 hsize⟩

/-! ## Codecs that play a list -/

/-- The answers of a list, and then the end of the stream. -/
def playing (l : List Answer) (n : Nat) : Answer :=
  l.getD n (.buffer ⟨false, true, 0, 0⟩)

/-- Behind its answers the codec says that it is at the end. -/
theorem playing_of_length_le {l : List Answer} {n : Nat} (h : l.length ≤ n) :
    playing l n = .buffer ⟨false, true, 0, 0⟩ := by
  unfold playing
  rw [List.getD_eq_getElem?_getD, List.getElem?_eq_none h]
  rfl

instance (s : TimelapseEncoder Bitmap) : (a : Answer) → Decidable (s.Allows a)
  | .tryAgainLater => inferInstanceAs (Decidable True)
  | .outputFormatChanged => inferInstanceAs (Decidable (_ = _))
  | .other => inferInstanceAs (Decidable True)
  | .buffer _ =>
    have : Decidable (s.surface ≠ []) :=
      decidable_of_iff (s.surface.isEmpty = false) List.isEmpty_eq_false_iff
    inferInstanceAs (Decidable (_ = _ → _ ∧ _ ∧ _))

/-- What the list plays is a codec when each of its answers is allowed and the encoding is over by
its end. -/
theorem encodes_playing (l : List Answer)
    (hallows : ∀ n ≤ l.length, (before job (playing l) n).all
      fun s => s.phase = .draining → s.Allows (playing l n))
    (hends : (before job (playing l) (l.length + 1)).isNone)
    (hstamps : ∀ n < l.length, ∀ m ≤ n,
      ∀ p ∈ stamp (playing l m), ∀ q ∈ stamp (playing l n), p ≤ q) :
    Encodes job (playing l) where
  allows n s hs hphase := by
    rcases Nat.lt_or_ge l.length n with hlt | hle
    · have hover : ∀ k, before job (playing l) (l.length + 1 + k) = none := by
        intro k
        induction k with
        | zero => exact Option.isNone_iff_eq_none.mp hends
        | succ k ih =>
          refine Option.eq_none_iff_forall_ne_some.mpr fun t ht => ?_
          obtain ⟨u, hu, -⟩ := before_succ.mp ht
          cases ih.symm.trans hu
      have hnone := hover (n - (l.length + 1))
      rw [show l.length + 1 + (n - (l.length + 1)) = n by omega, hs] at hnone
      cases hnone
    · have hall := hallows n hle
      rw [hs, Option.all_some, decide_eq_true_iff] at hall
      exact hall hphase
  drains n := by
    refine ⟨n + l.length, Nat.le_add_right _ _, .inr (.inr ?_)⟩
    rw [playing_of_length_le (Nat.le_add_left _ _)]
    rfl
  ends n s _ _ := by
    refine ⟨n + l.length, Nat.le_add_right _ _, ?_⟩
    rw [playing_of_length_le (Nat.le_add_left _ _)]
    rfl
  stamps m n p q hmn hp hq := by
    rcases Nat.lt_or_ge n l.length with hlt | hge
    · exact hstamps n hlt m hmn p hp q hq
    · rw [playing_of_length_le hge] at hq
      cases hq

/-- Two frames at 25 frames a second. -/
def twoPictures : TimelapseJob Nat Nat := ⟨[0, 1], some, 25, 1280, 720⟩

/-- A codec that returns each picture at once, the second with its time. -/
def promptCodec : List Answer :=
  [.outputFormatChanged, .buffer ⟨true, false, 32, 0⟩, .buffer ⟨false, false, 900, 0⟩,
    .tryAgainLater, .other, .buffer ⟨false, true, 300, 40000⟩]

/-- With this codec the frames have their times. -/
theorem timelapse_timed_promptCodec : Timed twoPictures [0, 1] (playing promptCodec) := by
  have hencodes : Encodes twoPictures (playing promptCodec) :=
    encodes_playing promptCodec (by decide) (by decide) (by decide)
  refine (timelapse_timed_iff rfl (by decide) (by decide) hencodes).mpr ⟨by decide, fun n hn => ?_⟩
  have hshort : ∀ n < 6, StampedAt 25 2 (playing promptCodec) n := by decide
  refine hshort n (Nat.lt_of_not_ge fun hge => ?_)
  have hall : samples (playing promptCodec) 6 ≤ samples (playing promptCodec) n :=
    Nat.count_monotone _ hge
  have htwo : samples (playing promptCodec) 6 = 2 := by decide
  rw [htwo] at hall
  exact absurd hn (Nat.not_lt.mpr hall)

/-- A codec that returns the first picture only when the second was fed in. -/
def lateCodec : List Answer :=
  [.tryAgainLater, .outputFormatChanged, .buffer ⟨false, false, 900, 0⟩,
    .buffer ⟨false, true, 300, 0⟩]

/-- **Not every codec makes the times those of the frames**: both samples get the second
frame's. -/
theorem timelapse_not_timed :
    ¬∀ (job : TimelapseJob Nat Nat) (bitmaps : List Nat) (answers : Nat → Answer),
      job.frames.map job.decodeFile = bitmaps.map some → bitmaps ≠ [] → 1 ≤ job.fps →
        Encodes job answers → Timed job bitmaps answers := by
  intro h
  have hencodes : Encodes twoPictures (playing lateCodec) :=
    encodes_playing lateCodec (by decide) (by decide) (by decide)
  obtain ⟨n, s, hs, hfinished, hwritten⟩ :=
    h twoPictures [0, 1] _ rfl (by decide) (by decide) hencodes
  have hp := progressed (n := n) (s := s) rfl (by decide) (by decide) (by decide) hencodes hs
  have hcount : samples (playing lateCodec) n = 2 := by rw [← hp.count, hwritten]; rfl
  have hlate : 2 < n := Nat.lt_of_not_ge fun hle => by
    have hfew : samples (playing lateCodec) n ≤ samples (playing lateCodec) 2 :=
      Nat.count_monotone _ hle
    have hnone : samples (playing lateCodec) 2 = 0 := by decide
    omega
  have hstamped := hp.times.mp ((eq_mapIdx_iff _ _ _).mp hwritten).2 2 hlate
  exact absurd hstamped (by decide)

end Cream.Model.TimelapseEncoder
