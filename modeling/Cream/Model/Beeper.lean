import Mathlib

/-!
# The beeper

`playTone` in `WebService.kt` and `generateTone` in `beeper.cpp`. The samples, the period and the
sine come out of float arithmetic and are parameters (`Synth`); the indices are those of the
code, and an access outside of the array, a null array or a signed overflow is a fault. That
`ReleaseFloatArrayElements` may discard the samples, and the audio track, are left out but for
the time it is released after.

SOURCE: WebService.kt:139-164, 542-550, beeper.cpp:8-28
-/

set_option autoImplicit false

namespace Cream.Model

/-- The float arithmetic of `generateTone`, for each frequency. -/
structure Synth (F : Type) where
  /-- `(int)(M_PI * (1 / freq) + 0.5)` -/
  period : BitVec 32 → BitVec 32
  zero : F
  /-- `sin(2 * M_PI * freq)` -/
  first : BitVec 32 → F
  /-- `k * sample[i - 1] - sample[i - 2]` -/
  next : BitVec 32 → F → F → F

/-- How `generateTone` goes on: it has the samples, it has accessed what is not in the array, or
it still runs. -/
inductive ToneOutcome (F : Type) where
  | done (sample : List F)
  | fault
  | running

namespace Beeper

variable {F : Type}

def BEEPER_SAMPLE_RATE : BitVec 32 := 8000#32

/-- `sample[i]` -/
def read (sample : List F) (i : Int) : Option F := if 0 ≤ i then sample[i.toNat]? else none

/-- `sample[i] = x` -/
def write (sample : List F) (i : Int) (x : F) : Option (List F) :=
  if 0 ≤ i ∧ i < sample.length then some (sample.set i.toNat x) else none

/-- `memcpy(sample + i, sample, sizeof(float) * count)`. A negative count is a huge one. -/
def memcpy (sample : List F) (i count : Int) : Option (List F) :=
  if count = 0 then some sample
  else if 0 < count ∧ 0 ≤ i ∧ i + count ≤ sample.length then
    some (sample.take i.toNat ++ sample.take count.toNat ++ sample.drop (i + count).toNat)
  else none

/-- The loop over the first period, with so many turns left. -/
def oscillate (next : F → F → F) : Nat → Int → List F → Option (List F)
  | 0, _, sample => some sample
  | k + 1, i, sample =>
    (read sample (i - 1)).bind fun a =>
    (read sample (i - 2)).bind fun b =>
    (write sample i (next a b)).bind fun sample => oscillate next k (i + 1) sample

/-- The loop that copies the first period, for so many turns. -/
def fill (numSamples period : Int) : Nat → Int → List F → ToneOutcome F
  | 0, _, _ => .running
  | fuel + 1, i, sample =>
    if i < numSamples then
      match memcpy sample i (min (numSamples - i) period) with
      | none => .fault
      | some sample =>
        if -2 ^ 31 ≤ i + period ∧ i + period < 2 ^ 31 then
          fill numSamples period fuel (i + period) sample
        else .fault
    else .done sample

/-- `generateTone`, with so many turns of its last loop. -/
def generateTone (synth : Synth F) (numSamples frequency : BitVec 32) (fuel : Nat) :
    ToneOutcome F :=
  let n := numSamples.toInt
  let period := (synth.period frequency).toInt
  -- `NewFloatArray` gives null for a negative size
  if n < 0 then .fault
  else
    let sample :=
      (write (List.replicate n.toNat synth.zero) 0 synth.zero).bind fun sample =>
      (write sample 1 (synth.first frequency)).bind fun sample =>
      oscillate (synth.next frequency) (min n period - 2).toNat 2 sample
    match sample with
    | none => .fault
    | some sample => fill n period fuel period sample

/-- `numSamples` of `playTone`. -/
def numSamples (duration : BitVec 32) : BitVec 32 := duration * BEEPER_SAMPLE_RATE

/-- The milliseconds after which `playTone` releases the track. -/
def releaseDelay (duration : BitVec 32) : Int := max duration.toInt 0

end Beeper

end Cream.Model
