import Cream.Model.Beeper

/-!
# The samples of a tone

`playTone` and `generateTone`: a period of a frequency is computed and then copied until the
array is full, which is right for at least two samples and a positive period
(`generateTone_periodic`). No tone is played to its end, as its duration is seconds for the
samples and milliseconds for the release (`tone_never_right`).
-/

set_option autoImplicit false

namespace Cream.Model.Beeper

variable {F : Type} {synth : Synth F} {duration frequency numSamples : BitVec 32}

/-- The number of samples does not overflow. -/
def NoOverflow (duration : BitVec 32) : Prop :=
  (Beeper.numSamples duration).toInt = duration.toInt * BEEPER_SAMPLE_RATE.toInt

/-- `generateTone` comes to an end. -/
def Terminates (synth : Synth F) (numSamples frequency : BitVec 32) : Prop :=
  ∃ fuel, generateTone synth numSamples frequency fuel ≠ .running

/-- `generateTone` stays in its array. -/
def InBounds (synth : Synth F) (numSamples frequency : BitVec 32) : Prop :=
  ∀ fuel, generateTone synth numSamples frequency fuel ≠ .fault

/-- The array has as many samples as it should, and repeats with the period. -/
def Periodic (synth : Synth F) (numSamples frequency : BitVec 32) : Prop :=
  ∀ fuel sample, generateTone synth numSamples frequency fuel = .done sample →
    sample.length = numSamples.toInt ∧
      ∀ i : Int, (synth.period frequency).toInt ≤ i → 0 ≤ i → i < sample.length →
        read sample i = read sample (i - (synth.period frequency).toInt)

/-- The track is not released before it has played its samples. -/
def PlaysOut (duration : BitVec 32) : Prop :=
  (Beeper.numSamples duration).toInt * 1000 ≤ releaseDelay duration * BEEPER_SAMPLE_RATE.toInt

/-- What a tone should be. -/
def ToneRight (synth : Synth F) (duration frequency : BitVec 32) : Prop :=
  NoOverflow duration ∧ Terminates synth (Beeper.numSamples duration) frequency ∧
    InBounds synth (Beeper.numSamples duration) frequency ∧
    Periodic synth (Beeper.numSamples duration) frequency ∧ PlaysOut duration

/-- The first two elements are written whatever the size. -/
theorem two_le_of_inBounds (h : InBounds synth numSamples frequency) : 2 ≤ numSamples.toInt := by
  by_contra hlt
  refine h 0 ?_
  unfold generateTone
  dsimp only
  split
  · rfl
  · next hpos =>
    have hsmall : (write (List.replicate numSamples.toInt.toNat synth.zero) 0 synth.zero).bind
        (fun sample => write sample 1 (synth.first frequency)) = none := by
      refine Option.bind_eq_none_iff.mpr fun sample hsample => ?_
      unfold write at hsample
      split at hsample
      · cases hsample
        refine if_neg fun hwithin => ?_
        have hone := hwithin.2
        rw [List.length_set, List.length_replicate] at hone
        omega
      · cases hsample
    rw [← Option.bind_assoc, hsmall]
    rfl

/-! ## The samples -/

/-- A write keeps the length. -/
theorem length_write {sample sample' : List F} {i : Int} {x : F}
    (h : write sample i x = some sample') : sample'.length = sample.length := by
  unfold write at h
  split at h
  · cases h
    exact List.length_set
  · cases h

/-- A write within the buffer succeeds. -/
theorem write_of_lt (sample : List F) (i : Int) (hi : 0 ≤ i ∧ i < sample.length) (x : F) :
    ∃ sample', write sample i x = some sample' ∧ sample'.length = sample.length := by
  have hwrite : write sample i x = some (sample.set i.toNat x) := if_pos hi
  exact ⟨_, hwrite, length_write hwrite⟩

/-- The loop over the first period stays in the array. -/
theorem oscillate_within (next : F → F → F) (k : Nat) (i : Int) (sample : List F) (hi : 2 ≤ i)
    (hk : i + k ≤ sample.length) :
    ∃ sample', oscillate next k i sample = some sample' ∧ sample'.length = sample.length := by
  induction k generalizing i sample with
  | zero => exact ⟨sample, rfl, rfl⟩
  | succ k ih =>
    have hread : ∀ j : Int, 0 ≤ j → j < sample.length → ∃ a, read sample j = some a := by
      intro j hpos hlt
      have hwithin : j.toNat < sample.length := by omega
      refine ⟨sample[j.toNat], ?_⟩
      unfold read
      rw [if_pos hpos, List.getElem?_eq_getElem hwithin]
    obtain ⟨a, ha⟩ := hread (i - 1) (by omega) (by omega)
    obtain ⟨b, hb⟩ := hread (i - 2) (by omega) (by omega)
    obtain ⟨sample', hwrite, hlength⟩ :=
      write_of_lt sample i (by omega) (next a b)
    obtain ⟨sample'', hrest, hlength'⟩ := ih (i + 1) sample' (by omega) (by omega)
    refine ⟨sample'', ?_, hlength'.trans hlength⟩
    rw [oscillate, ha, Option.bind_some, hb, Option.bind_some, hwrite, Option.bind_some, hrest]

/-- The samples up to an index repeat the first period. -/
def Repeats (base : List F) (period i : Nat) (sample : List F) : Prop :=
  ∀ j < i, j < sample.length → sample[j]? = base[j % period]?

/-- A copy of the first period to a multiple of it. -/
theorem Repeats.memcpy {base sample : List F} {period i : Nat} (h : Repeats base period i sample)
    (hperiod : 1 ≤ period) (hmultiple : period ∣ i) (hi : period ≤ i) (hlt : i < sample.length) :
    ∃ sample', Beeper.memcpy sample i (min (sample.length - i) period) = some sample' ∧
      sample'.length = sample.length ∧ Repeats base period (i + period) sample' := by
  obtain ⟨count, hcount, hpos⟩ : ∃ count : Nat,
      (min (sample.length - i) period : Int) = count ∧ 1 ≤ count :=
    ⟨min (sample.length - i) period, by omega, by omega⟩
  have hcopy : Beeper.memcpy sample i (min (sample.length - i) period) =
      some (sample.take i ++ sample.take count ++ sample.drop (i + count)) := by
    unfold Beeper.memcpy
    rw [hcount, if_neg (by omega), if_pos (by omega)]
    rfl
  have htake : (sample.take i).length = i := by rw [List.length_take]; omega
  have hcopied : (sample.take count).length = count := by rw [List.length_take]; omega
  refine ⟨_, hcopy, ?_, fun j hj hwithin => ?_⟩
  · rw [List.length_append, List.length_append, htake, hcopied, List.length_drop]
    omega
  · rw [List.length_append, List.length_append, htake, hcopied, List.length_drop] at hwithin
    rw [List.append_assoc]
    by_cases hbefore : j < i
    · rw [List.getElem?_append_left (by omega), List.getElem?_take_of_lt hbefore]
      exact h j hbefore (by omega)
    · -- what is copied is the first period, and the target starts at a multiple of it
      obtain ⟨t, rfl⟩ : ∃ t, j = i + t := ⟨j - i, by omega⟩
      rw [List.getElem?_append_right (by omega), htake, Nat.add_sub_cancel_left,
        List.getElem?_append_left (by omega), List.getElem?_take_of_lt (by omega),
        h t (by omega) (by omega)]
      obtain ⟨q, rfl⟩ := hmultiple
      rw [Nat.mul_add_mod]

/-- **The loop that fills the array** ends, stays in it, and leaves it repeating the first
period. -/
theorem fill_repeats {base : List F} {period : Nat} (hperiod : 1 ≤ period) (fuel : Nat) {i : Nat}
    {sample : List F} (h : Repeats base period i sample) (hmultiple : period ∣ i)
    (hi : period ≤ i) (hsmall : sample.length + period ≤ 2 ^ 31) :
    fill sample.length period fuel i sample = .running ∧ fuel ≤ sample.length - i ∨
      ∃ sample', fill sample.length period fuel i sample = .done sample' ∧
        sample'.length = sample.length ∧ Repeats base period sample.length sample' := by
  induction fuel generalizing i sample with
  | zero => exact .inl ⟨rfl, Nat.zero_le _⟩
  | succ fuel ih =>
    rw [fill]
    by_cases hlt : i < sample.length
    · obtain ⟨sample', hcopy, hlength, hnext⟩ := h.memcpy hperiod hmultiple hi hlt
      have hint : (i : Int) < sample.length := by omega
      have hrange : -2 ^ 31 ≤ (i : Int) + period ∧ (i : Int) + period < 2 ^ 31 := by omega
      rw [if_pos hint, hcopy]
      dsimp only
      rw [if_pos hrange]
      have hrest := ih hnext (Nat.dvd_add hmultiple (Nat.dvd_refl period)) (by omega) (by omega)
      rw [hlength] at hrest
      push_cast at hrest
      rcases hrest with ⟨hrunning, hfuel⟩ | hdone
      · exact .inl ⟨hrunning, by omega⟩
      · exact .inr hdone
    · rw [if_neg (by omega)]
      exact .inr ⟨sample, rfl, rfl, fun j _ hwithin => h j (by omega) hwithin⟩

/-- **The samples of a tone** that has at least two of them: with a positive period, and indices
that do not overflow, `generateTone` ends, stays in the array, and the array is periodic.

SOURCE: beeper.cpp:8-28 -/
theorem generateTone_periodic (synth : Synth F) (numSamples frequency : BitVec 32)
    (htwo : 2 ≤ numSamples.toInt) (hperiod : 1 ≤ (synth.period frequency).toInt)
    (hsmall : numSamples.toInt + (synth.period frequency).toInt ≤ 2 ^ 31) :
    Terminates synth numSamples frequency ∧ InBounds synth numSamples frequency ∧
      Periodic synth numSamples frequency := by
  obtain ⟨n, hn⟩ : ∃ n : Nat, numSamples.toInt = n := ⟨numSamples.toInt.toNat, by omega⟩
  obtain ⟨period, hp⟩ : ∃ period : Nat, (synth.period frequency).toInt = period :=
    ⟨(synth.period frequency).toInt.toNat, by omega⟩
  rw [hn, hp] at hsmall
  rw [hn] at htwo
  rw [hp] at hperiod
  -- the first period
  obtain ⟨first, hfirst, hlength₁⟩ :=
    write_of_lt (List.replicate n synth.zero) 0 (by simp; omega) synth.zero
  rw [List.length_replicate] at hlength₁
  obtain ⟨second, hsecond, hlength₂⟩ :=
    write_of_lt first 1 (by omega) (synth.first frequency)
  obtain ⟨base, hbase, hlength₃⟩ := oscillate_within (synth.next frequency)
    (min (n : Int) period - 2).toNat 2 second (by omega) (by omega)
  have hlength : base.length = n := hlength₃.trans (hlength₂.trans hlength₁)
  have heq : ∀ fuel, generateTone synth numSamples frequency fuel =
      fill n period fuel period base := by
    intro fuel
    unfold generateTone
    dsimp only
    rw [hn, hp, if_neg (by omega), Int.toNat_natCast, hfirst, Option.bind_some, hsecond,
      Option.bind_some, hbase]
  -- its copies
  have hstart : Repeats base period period base := by
    intro j hj _
    rw [Nat.mod_eq_of_lt hj]
  have hfill := fun fuel =>
    fill_repeats (by omega) fuel hstart (Nat.dvd_refl period) (Nat.le_refl period) (by omega)
  rw [hlength] at hfill
  refine ⟨⟨n + 1, ?_⟩, fun fuel => ?_, fun fuel sample hdone => ?_⟩
  · rw [heq]
    rcases hfill (n + 1) with ⟨-, hfuel⟩ | ⟨sample, hdone, -⟩
    · omega
    · rw [hdone]
      intro h
      cases h
  · rw [heq]
    rcases hfill fuel with ⟨hrunning, -⟩ | ⟨sample, hdone, -⟩
    · rw [hrunning]
      intro h
      cases h
    · rw [hdone]
      intro h
      cases h
  · rw [heq] at hdone
    rcases hfill fuel with ⟨hrunning, -⟩ | ⟨sample', hdone', hsize, hrepeats⟩
    · rw [hrunning] at hdone
      cases hdone
    · rw [hdone'] at hdone
      cases hdone
      refine ⟨by omega, fun i hi hpos hlt => ?_⟩
      rw [hp] at hi ⊢
      obtain ⟨j, rfl⟩ : ∃ j : Nat, i = j + period := ⟨(i - period).toNat, by omega⟩
      unfold read
      rw [if_pos hpos, if_pos (by omega), Int.add_sub_cancel, ← Int.natCast_add, Int.toNat_natCast,
        Int.toNat_natCast, hrepeats _ (by omega) (by omega), hrepeats _ (by omega) (by omega),
        Nat.add_mod_right]

/-! ## The whole tone -/

/-- A tone of at least a second is released too early. -/
theorem playsOut_iff (h : NoOverflow duration) : PlaysOut duration ↔ duration.toInt ≤ 0 := by
  have hrate : BEEPER_SAMPLE_RATE.toInt = 8000 := by decide
  unfold NoOverflow at h
  unfold PlaysOut releaseDelay
  rw [h, hrate]
  omega

/-- **No tone is right**: for two samples the duration is at least one, and then the track is
released before they are played.

SOURCE: WebService.kt:139-164,542-550, beeper.cpp:8-28 -/
theorem tone_never_right (synth : Synth F) (duration frequency : BitVec 32) :
    ¬ToneRight synth duration frequency := by
  rintro ⟨hoverflow, -, hbounds, -, hplays⟩
  have htwo := two_le_of_inBounds hbounds
  have hnone := (playsOut_iff hoverflow).mp hplays
  have hrate : BEEPER_SAMPLE_RATE.toInt = 8000 := by decide
  rw [NoOverflow, hrate] at hoverflow
  omega

/-- **A tone of one second** at 440 Hz is released after a millisecond. -/
theorem tone_not_right :
    ¬∀ (synth : Synth Nat) (duration frequency : BitVec 32),
      ToneRight synth duration frequency := by
  intro h
  have hplays := (h ⟨fun _ => 57#32, 0, fun _ => 1, fun _ a b => a + b⟩ 1#32 440#32).2.2.2.2
  exact absurd hplays (by unfold PlaysOut; decide)

end Cream.Model.Beeper
