import Cream.Model.Msgproto

/-!
# Integers on the wire

Three functions write integers and three read them: the host's in Python, its C helper's and the
firmware's, which are the same. All readers agree on all bytes up to a multiple of 2^32
(`parseInt_agree`), so it is enough to follow one of them. What is written in Python is read as
it was meant (`encodeInt_parsed`). What is written in C is read in Python as a signed integer just
when that integer is -2^26 or more (`signed_parsed_iff`): below it the C code writes the sign bit
where the Python code looks for a value bit.

SOURCE: src/app/src/main/klipper/klippy/chelper/msgblock.c:73-103 (`encode_int`, `parse_int`)
SOURCE: src/app/src/main/klipper/src/command.c:41-71 (`encode_int`, `parse_int`)
SOURCE: src/app/src/main/klipper/klippy/msgproto.py:37-63 (`PT_uint32`, `PT_int32`)
-/

set_option autoImplicit false

namespace Cream.Analysis.MessageInts

open Cream.Library Cream.Model Vlq PercentCoding

/-! ## Readers -/

/-- The first byte with the bits of `0x60` stands for a negative number. -/
theorem first_eq {c : Nat} (h : c < 128) :
    (if c &&& 0x60 = 0x60 then (c : Int) - 0x80 else c) = signed c := by
  revert c
  decide

/-- What the reader in Python reads, before it takes it for unsigned. -/
def readInt (s : Bytes) : Option (Int × Bytes) :=
  read signed (fun (v : Int) (d : Nat) => v * 128 + d) s

/-- The reader in Python, by what it reads. -/
theorem parseInt_eq (isSigned : Bool) (s : Bytes) :
    Msgproto.parseInt isSigned s =
      (readInt s).map fun r => (if isSigned then r.1 else r.1 % 0x100000000, r.2) := by
  have hread : read (fun (c : Nat) => if c &&& 0x60 = 0x60 then (c : Int) - 0x80 else c)
      (fun (v : Int) (d : Nat) => v * 128 + d) s =
        (read signed (fun (v : Int) (d : Nat) => v * 128 + d) s).map (Prod.map id id) :=
    read_map id (fun d hd => first_eq hd) (fun v d hd => rfl) s
  unfold Msgproto.parseInt readInt
  rw [hread]
  cases read signed (fun (v : Int) (d : Nat) => v * 128 + d) s <;> rfl

/-- An integer in 32 bits. -/
theorem toNat_ofInt (v : Int) : (UInt32.ofInt v).toNat = (v % 2 ^ 32).toNat := by
  have hlt : (v % 2 ^ 32).toNat < 2 ^ 32 := by omega
  rw [UInt32.ofInt, UInt32.toNat_ofNat', Nat.mod_eq_of_lt hlt]

/-- The first byte in 32 bits. -/
theorem first_ofInt {c : Nat} (h : c < 128) :
    (if UInt32.ofNat c &&& 0x60 = 0x60 then UInt32.ofNat c ||| -0x20 else UInt32.ofNat c) =
      UInt32.ofInt (signed c) := by
  revert c
  decide

/-- A further byte in 32 bits. -/
theorem step_ofInt (v : Int) {d : Nat} (hd : d < 128) :
    (UInt32.ofInt v <<< 7) ||| UInt32.ofNat d = UInt32.ofInt (v * 128 + d) := by
  apply UInt32.toNat_inj.mp
  have hd' : (UInt32.ofNat d).toNat = d := by simp; omega
  have hshift : (UInt32.ofInt v <<< 7).toNat = 2 ^ 7 * ((v % 2 ^ 25).toNat) := by
    rw [UInt32.toNat_shiftLeft, toNat_ofInt, Nat.shiftLeft_eq]
    simp only [UInt32.reduceToNat, Nat.reduceMod]
    omega
  rw [UInt32.toNat_or, hshift, hd', ← Nat.two_pow_add_eq_or_of_lt (by omega), toNat_ofInt]
  omega

/-- **The readers agree** on all bytes: the firmware reads what the host reads, in 32 bits. -/
theorem parseInt_agree (s : Bytes) :
    Msgblock.parseInt s = (readInt s).map fun r => (UInt32.ofInt r.1, r.2) := by
  have hread : read
      (fun (c : Nat) =>
        let v := UInt32.ofNat c
        if v &&& 0x60 = 0x60 then v ||| -0x20 else v)
      (fun (v : UInt32) (c : Nat) => (v <<< 7) ||| UInt32.ofNat c) s =
        (read signed (fun (v : Int) (d : Nat) => v * 128 + d) s).map
          (Prod.map UInt32.ofInt id) :=
    read_map UInt32.ofInt (fun d hd => first_ofInt hd) (fun v d hd => step_ofInt v hd) s
  unfold Msgblock.parseInt
  rw [hread]
  rfl

/-! ## Writers -/

/-- What is read of groups is what they stand for. -/
theorem readInt_digits (n : Nat) (v : Int) (rest : Bytes) :
    readInt (continued (digits n v) ++ rest) = some (value (digits n v), rest) :=
  read_value (digits_ne_nil n v) digits_lt rest

/-- How many groups there are behind the first of at most five. -/
theorem size_four (v : Int) :
    size 4 v = if Fits 0 v then 0 else if Fits 1 v then 1 else if Fits 2 v then 2
      else if Fits 3 v then 3 else 4 := by
  have hrange : List.range 4 = [0, 1, 2, 3] := rfl
  unfold size
  rw [hrange]
  by_cases h0 : Fits 0 v
  · simp [h0]
  by_cases h1 : Fits 1 v
  · simp [h0, h1]
  by_cases h2 : Fits 2 v
  · simp [h0, h1, h2]
  by_cases h3 : Fits 3 v
  · simp [h0, h1, h2, h3]
  · simp [h0, h1, h2, h3]

/-- **What the host writes**: as few groups as the integer needs. -/
theorem encodeInt_eq (v : Int) : Msgproto.encodeInt v = continued (digits (size 4 v) v) := by
  have h7 : ((v >>> (7 : Nat)) % 128 + 128).toNat = (v / 128 % 128).toNat + 128 := by
    rw [Int.shiftRight_eq_div_pow]
    omega
  have h14 : ((v >>> (14 : Nat)) % 128 + 128).toNat = (v / 128 / 128 % 128).toNat + 128 := by
    rw [Int.shiftRight_eq_div_pow]
    omega
  have h21 : ((v >>> (21 : Nat)) % 128 + 128).toNat = (v / 128 / 128 / 128 % 128).toNat + 128 := by
    rw [Int.shiftRight_eq_div_pow]
    omega
  have h28 : ((v >>> (28 : Nat)) % 128 + 128).toNat = (v / 128 / 128 / 128 / 128 % 128).toNat + 128 := by
    rw [Int.shiftRight_eq_div_pow]
    omega
  have c0 : (v ≥ 0x60 ∨ v < -0x20) ↔ ¬Fits 0 v := by
    unfold Fits
    omega
  have c1 : (v ≥ 0x3000 ∨ v < -0x1000) ↔ ¬Fits 1 v := by
    unfold Fits
    omega
  have c2 : (v ≥ 0x180000 ∨ v < -0x80000) ↔ ¬Fits 2 v := by
    unfold Fits
    omega
  have c3 : (v ≥ 0xc000000 ∨ v < -0x4000000) ↔ ¬Fits 3 v := by
    unfold Fits
    omega
  have h01 : Fits 0 v → Fits 1 v := by
    unfold Fits
    omega
  have h12 : Fits 1 v → Fits 2 v := by
    unfold Fits
    omega
  have h23 : Fits 2 v → Fits 3 v := by
    unfold Fits
    omega
  unfold Msgproto.encodeInt Msgproto.appendGroup
  rw [h7, h14, h21, h28, size_four]
  simp only [c0, c1, c2, c3]
  by_cases f0 : Fits 0 v
  · simp [f0, h01, h12, h23, digits, continued]
  by_cases f1 : Fits 1 v
  · simp [f0, f1, h12, h23, digits, continued]
  by_cases f2 : Fits 2 v
  · simp [f0, f1, f2, h23, digits, continued]
  by_cases f3 : Fits 3 v
  · simp [f0, f1, f2, f3, digits, continued]
  · simp [f0, f1, f2, f3, digits, continued]

/-- The signed reading of 32 bits. -/
theorem toInt_eq (v : UInt32) :
    v.toInt32.toInt = if v.toNat < 2 ^ 31 then (v.toNat : Int) else v.toNat - 2 ^ 32 := by
  have h : v.toInt32.toInt = v.toBitVec.toInt := rfl
  rw [h, BitVec.toInt_eq_toNat_cond]
  have : v.toBitVec.toNat = v.toNat := rfl
  rw [this]
  split <;> split <;> omega

/-- What the bytes that the C code writes for an integer stand for. -/
def written (v : UInt32) : Int := if Fits 3 v.toInt32.toInt then v.toInt32.toInt else v.toNat

/-- A group that is not the last one. -/
theorem group_eq (x : UInt32) :
    ((x &&& 0x7f) ||| 0x80).toUInt8 = UInt8.ofNat (x.toNat % 128 + 128) := by
  apply UInt8.toNat_inj.mp
  have hand : (x &&& 0x7f).toNat = x.toNat % 128 := by
    rw [UInt32.toNat_and]
    exact Nat.and_two_pow_sub_one_eq_mod x.toNat 7
  have hor := Nat.two_pow_add_eq_or_of_lt (i := 7) (b := x.toNat % 128) (by omega) 1
  rw [UInt32.toNat_toUInt8, UInt32.toNat_or, hand, Nat.or_comm]
  simp only [UInt32.reduceToNat, UInt8.toNat_ofNat'] at hor ⊢
  rw [← hor]
  omega

/-- The last group. -/
theorem last_eq (x : UInt32) : (x &&& 0x7f).toUInt8 = UInt8.ofNat (x.toNat % 128) := by
  apply UInt8.toNat_inj.mp
  have hand : (x &&& 0x7f).toNat = x.toNat % 128 := by
    rw [UInt32.toNat_and]
    exact Nat.and_two_pow_sub_one_eq_mod x.toNat 7
  rw [UInt32.toNat_toUInt8, hand, UInt8.toNat_ofNat']

/-- The first of five groups. -/
theorem top_eq (v : UInt32) :
    ((v >>> 28) ||| 0x80).toUInt8 = UInt8.ofNat (v.toNat / 2 ^ 28 + 128) := by
  apply UInt8.toNat_inj.mp
  have hlt := v.toNat_lt
  have hshift : (v >>> 28).toNat = v.toNat / 2 ^ 28 := by
    rw [UInt32.toNat_shiftRight, Nat.shiftRight_eq_div_pow]
    rfl
  have hor := Nat.two_pow_add_eq_or_of_lt (i := 7) (b := v.toNat / 2 ^ 28) (by omega) 1
  rw [UInt32.toNat_toUInt8, UInt32.toNat_or, hshift, Nat.or_comm]
  simp only [UInt32.reduceToNat, UInt8.toNat_ofNat'] at hor ⊢
  rw [← hor]
  omega

/-- The groups below the first bits of a byte are the same for both readings of 32 bits. -/
theorem groups_eq {n : Nat} {w : Int} (h : w = n ∨ w = n - 2 ^ 32) :
    (w % 128).toNat = n % 128 ∧ (w / 128 % 128).toNat = n / 2 ^ 7 % 128 ∧
      (w / 128 / 128 % 128).toNat = n / 2 ^ 14 % 128 ∧
      (w / 128 / 128 / 128 % 128).toNat = n / 2 ^ 21 % 128 := by
  have h2 : w / 128 / 128 = w / 16384 := Int.ediv_ediv_of_nonneg (by norm_num)
  have h3 : w / 16384 / 128 = w / 2097152 := Int.ediv_ediv_of_nonneg (by norm_num)
  rw [h2, h3]
  refine ⟨?_, ?_, ?_, ?_⟩ <;> rcases h with rfl | rfl <;> omega

/-- The first of five groups has the four highest bits. -/
theorem top_group_eq {n : Nat} (h : n < 2 ^ 32) :
    ((n : Int) / 128 / 128 / 128 / 128 % 128).toNat = n / 2 ^ 28 := by
  have h2 : (n : Int) / 128 / 128 = n / 16384 := Int.ediv_ediv_of_nonneg (by norm_num)
  have h3 : (n : Int) / 16384 / 128 = n / 2097152 := Int.ediv_ediv_of_nonneg (by norm_num)
  have h4 : (n : Int) / 2097152 / 128 = n / 268435456 := Int.ediv_ediv_of_nonneg (by norm_num)
  rw [h2, h3, h4]
  omega

/-- **What the C code writes**: as many groups as the signed integer needs, but if these are five,
those of the unsigned one. -/
theorem encodeInt_c_eq (v : UInt32) :
    Msgblock.encodeInt v = continued (digits (size 4 v.toInt32.toInt) (written v)) := by
  have hlt := v.toNat_lt
  have hint := toInt_eq v
  have hshift : ∀ n : UInt32, (v >>> n).toNat = v.toNat / 2 ^ (n.toNat % 32) := fun n => by
    rw [UInt32.toNat_shiftRight, Nat.shiftRight_eq_div_pow]
  have h7 : (v >>> 7).toNat = v.toNat / 2 ^ 7 := hshift 7
  have h14 : (v >>> 14).toNat = v.toNat / 2 ^ 14 := hshift 14
  have h21 : (v >>> 21).toNat = v.toNat / 2 ^ 21 := hshift 21
  unfold Msgblock.encodeInt
  simp only [group_eq, last_eq, top_eq, h7, h14, h21]
  have c0 : (v.toInt32.toInt < 3 * 2 ^ 5 ∧ v.toInt32.toInt ≥ -2 ^ 5) ↔ Fits 0 v.toInt32.toInt := by
    unfold Fits
    omega
  have c1 : (v.toInt32.toInt < 3 * 2 ^ 12 ∧ v.toInt32.toInt ≥ -2 ^ 12) ↔
      Fits 1 v.toInt32.toInt := by
    unfold Fits
    omega
  have c2 : (v.toInt32.toInt < 3 * 2 ^ 19 ∧ v.toInt32.toInt ≥ -2 ^ 19) ↔
      Fits 2 v.toInt32.toInt := by
    unfold Fits
    omega
  have c3 : (v.toInt32.toInt < 3 * 2 ^ 26 ∧ v.toInt32.toInt ≥ -2 ^ 26) ↔
      Fits 3 v.toInt32.toInt := by
    unfold Fits
    omega
  simp only [c0, c1, c2, c3]
  have hw : written v = v.toNat ∨ written v = v.toNat - 2 ^ 32 := by
    unfold written
    split
    · rw [hint]
      split
      · exact .inl rfl
      · exact .inr rfl
    · exact .inl rfl
  obtain ⟨g0, g1, g2, g3⟩ := groups_eq hw
  rw [size_four]
  by_cases f0 : Fits 0 v.toInt32.toInt
  · simp [f0, digits, continued, g0]
  by_cases f1 : Fits 1 v.toInt32.toInt
  · simp [f0, f1, digits, continued, g0, g1]
  by_cases f2 : Fits 2 v.toInt32.toInt
  · simp [f0, f1, f2, digits, continued, g0, g1, g2]
  by_cases f3 : Fits 3 v.toInt32.toInt
  · simp [f0, f1, f2, f3, digits, continued, g0, g1, g2, g3]
  · have hunsigned : written v = v.toNat := by
      unfold written
      rw [if_neg f3]
    have g4 : (written v / 128 / 128 / 128 / 128 % 128).toNat = v.toNat / 2 ^ 28 := by
      rw [hunsigned]
      exact top_group_eq hlt
    simp [f0, f1, f2, f3, digits, continued, g0, g1, g2, g3, g4]

/-! ## What is read of what was written -/

/-- What differs by a multiple of 2^32 is the same in 32 bits. -/
theorem ofInt_congr {v w : Int} (h : v ≡ w [ZMOD 2 ^ 32]) : UInt32.ofInt v = UInt32.ofInt w := by
  apply UInt32.toNat_inj.mp
  rw [toNat_ofInt, toNat_ofInt, h]

/-- What the C code writes has the 32 bits it was given. -/
theorem ofInt_written (v : UInt32) : UInt32.ofInt (written v) = v := by
  have hlt := v.toNat_lt
  apply UInt32.toNat_inj.mp
  rw [toNat_ofInt, written, toInt_eq]
  split
  · split <;> omega
  · omega

/-- What the C code writes fits the number of groups that it writes. -/
theorem fits_written (v : UInt32) : Fits (size 4 v.toInt32.toInt) (written v) := by
  have hlt := v.toNat_lt
  have hfour : Fits 4 (v.toNat : Int) := by
    unfold Fits
    omega
  unfold written
  by_cases h3 : Fits 3 v.toInt32.toInt
  · rw [if_pos h3]
    refine fits_size ?_
    unfold Fits at h3 ⊢
    omega
  · have h2 : ¬Fits 2 v.toInt32.toInt := fun h => h3 (by unfold Fits at h ⊢; omega)
    have h1 : ¬Fits 1 v.toInt32.toInt := fun h => h2 (by unfold Fits at h ⊢; omega)
    have h0 : ¬Fits 0 v.toInt32.toInt := fun h => h1 (by unfold Fits at h ⊢; omega)
    rw [if_neg h3, size_four, if_neg h0, if_neg h1, if_neg h2, if_neg h3]
    exact hfour

/-- What the host writes stands for the integer, up to what no 32 bits show. -/
theorem readInt_encodeInt (v : Int) (rest : Bytes) :
    ∃ w, readInt (Msgproto.encodeInt v ++ rest) = some (w, rest) ∧ w ≡ v [ZMOD 2 ^ 32] ∧
      (Fits 4 v → w = v) := by
  rw [encodeInt_eq]
  refine ⟨_, readInt_digits _ v rest, ?_, fun h => value_digits (fits_size h)⟩
  by_cases h : Fits 4 v
  · rw [value_digits (fits_size h)]
  · have hsize : size 4 v = 4 := by
      have hnot : ∀ n < 4, ¬Fits n v := by
        intro n hn hfits
        refine h ?_
        unfold Fits at hfits ⊢
        have hpow : (128 : Int) ^ n ≤ 128 ^ 4 := by gcongr; omega
        omega
      rw [size_four, if_neg (hnot 0 (by omega)), if_neg (hnot 1 (by omega)),
        if_neg (hnot 2 (by omega)), if_neg (hnot 3 (by omega))]
    rw [hsize]
    exact (value_digits_modEq 4 v).of_dvd (by norm_num)

/-- **What the host writes, the firmware reads**, in 32 bits, whatever the integer is. -/
theorem encodeInt_parsed (v : Int) (rest : Bytes) :
    Msgblock.parseInt (Msgproto.encodeInt v ++ rest) = some (UInt32.ofInt v, rest) := by
  obtain ⟨w, hread, hmod, -⟩ := readInt_encodeInt v rest
  rw [parseInt_agree, hread, Option.map_some, ofInt_congr hmod]

/-- What the C code writes stands for the signed integer, or for the unsigned one. -/
theorem readInt_encodeInt_c (v : UInt32) (rest : Bytes) :
    readInt (Msgblock.encodeInt v ++ rest) = some (written v, rest) := by
  rw [encodeInt_c_eq, readInt_digits, value_digits (fits_written v)]

/-- **What the C code writes, all read**, as an unsigned integer. -/
theorem encodeInt_c_parsed (v : UInt32) (rest : Bytes) :
    Msgblock.parseInt (Msgblock.encodeInt v ++ rest) = some (v, rest) ∧
      Msgproto.parseInt false (Msgblock.encodeInt v ++ rest) = some ((v.toNat : Int), rest) := by
  have hlt := v.toNat_lt
  rw [parseInt_agree, parseInt_eq, readInt_encodeInt_c]
  refine ⟨by rw [Option.map_some, ofInt_written], ?_⟩
  have hmod : written v % 0x100000000 = v.toNat := by
    unfold written
    rw [toInt_eq]
    split
    · split <;> omega
    · omega
  simp [hmod]

/-- **Writers and readers agree**: what is written in Python is read in C, in 32 bits, what is
written in C is read in C and, as unsigned, in Python; and on all bytes, whoever wrote them, the
readers are at the same place with the same 32 bits. -/
theorem ints_agree :
    (∀ (v : Int) (rest : Bytes),
      Msgblock.parseInt (Msgproto.encodeInt v ++ rest) = some (UInt32.ofInt v, rest)) ∧
    (∀ (v : UInt32) (rest : Bytes),
      Msgblock.parseInt (Msgblock.encodeInt v ++ rest) = some (v, rest) ∧
        Msgproto.parseInt false (Msgblock.encodeInt v ++ rest) = some ((v.toNat : Int), rest)) ∧
    ∀ (isSigned : Bool) (s : Bytes), Msgblock.parseInt s =
      (Msgproto.parseInt isSigned s).map fun r => (UInt32.ofInt r.1, r.2) := by
  refine ⟨encodeInt_parsed, encodeInt_c_parsed, fun isSigned s => ?_⟩
  have hmod : ∀ v : Int, UInt32.ofInt (v % 0x100000000) = UInt32.ofInt v := fun v =>
    ofInt_congr (Int.mod_modEq v (2 ^ 32))
  rw [parseInt_agree, parseInt_eq]
  cases readInt s with
  | none => rfl
  | some r => cases isSigned <;> simp [hmod]

/-- **When a signed integer of the firmware is read as it was meant**: from -2^26 on. Below, the
firmware writes five groups, and the host takes them for the unsigned integer with these bits. -/
theorem signed_parsed_iff (v : UInt32) (rest : Bytes) :
    (Msgproto.parseInt true (Msgblock.encodeInt v ++ rest) = some (v.toInt32.toInt, rest) ↔
      -2 ^ 26 ≤ v.toInt32.toInt) ∧
    (v.toInt32.toInt < -2 ^ 26 → (Msgblock.encodeInt v).length = 5 ∧
      Msgproto.parseInt true (Msgblock.encodeInt v ++ rest) = some ((v.toNat : Int), rest)) := by
  have hlt := v.toNat_lt
  have hint := toInt_eq v
  rw [parseInt_eq, readInt_encodeInt_c]
  constructor
  · have hwritten : written v = v.toInt32.toInt ↔ -2 ^ 26 ≤ v.toInt32.toInt := by
      unfold written
      split
      · next h =>
        unfold Fits at h
        omega
      · next h =>
        unfold Fits at h
        omega
    simp [hwritten]
  · intro hlow
    have hnot : ∀ n ≤ 3, ¬Fits n v.toInt32.toInt := by
      intro n hn hfits
      unfold Fits at hfits
      have hpow : (128 : Int) ^ n ≤ 128 ^ 3 := by gcongr; omega
      omega
    constructor
    · rw [encodeInt_c_eq, length_continued, length_digits, size_four, if_neg (hnot 0 (by omega)),
        if_neg (hnot 1 (by omega)), if_neg (hnot 2 (by omega)), if_neg (hnot 3 (by omega))]
    · rw [written, if_neg (hnot 3 (by omega))]
      rfl

end Cream.Analysis.MessageInts
