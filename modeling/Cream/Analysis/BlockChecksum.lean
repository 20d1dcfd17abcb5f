import Cream.Model.Msgblock

/-!
# What the checksum of a block detects

A block carries a 16-bit checksum of its bytes. A round of the checksum is injective in the state
and in the byte (`crcRound_state`, `crcRound_inj`), and two rounds are injective in both bytes,
so two neighbouring bytes are covered as well as one. The high byte of the checksum is sent
first, though it is the low one that the next round would take up: a change of the last byte
before the checksum can be made good in the checksum's first byte. `burst_accepted_iff` says that
this one change is all that is missed.

SOURCE: src/app/src/main/klipper/src/generic/crc16_ccitt.c:10-22
SOURCE: src/app/src/main/klipper/src/command.c:268-326 (`command_find_block`)
SOURCE: src/app/src/main/klipper/klippy/chelper/msgblock.c:16-70 (`msgblock_check`)
-/

set_option autoImplicit false

namespace Cream.Model.Msgblock

open Cream.Library PercentCoding
open Deframing (Verdict)

/-! ## Rounds -/

/-- The byte a round of the checksum works with. -/
def mixed (crc : UInt16) (data : UInt8) : UInt8 :=
  let data := data ^^^ (crc &&& 0xff).toUInt8
  data ^^^ (data <<< 4)

def high (crc : UInt16) : UInt8 := (crc >>> 8).toUInt8

def low (crc : UInt16) : UInt8 := (crc &&& 0xff).toUInt8

/-- A round, by the byte that is mixed in. -/
theorem crcRound_eq (crc : UInt16) (data : UInt8) :
    crcRound crc data = (((mixed crc data).toUInt16 <<< 8) ||| (crc >>> 8)) ^^^
      (mixed crc data >>> 4).toUInt16 ^^^ ((mixed crc data).toUInt16 <<< 3) := rfl

/-- The high byte after a round depends on that byte only. -/
theorem high_crcRound (crc : UInt16) (data : UInt8) :
    high (crcRound crc data) = mixed crc data ^^^ (mixed crc data >>> 5) := by
  rw [crcRound_eq, high]
  generalize mixed crc data = y
  apply UInt8.toBitVec_inj.mp
  apply BitVec.eq_of_getLsbD_eq
  intro i hi
  interval_cases i <;> simp

/-- The low byte depends on the high byte before, too. -/
theorem low_crcRound (crc : UInt16) (data : UInt8) :
    low (crcRound crc data) =
      high crc ^^^ ((mixed crc data >>> 4) ^^^ (mixed crc data <<< 3)) := by
  rw [crcRound_eq, high, low]
  generalize mixed crc data = y
  apply UInt8.toBitVec_inj.mp
  apply BitVec.eq_of_getLsbD_eq
  intro i hi
  interval_cases i <;> simp

/-- A checksum is its two bytes. -/
theorem crc_ext {c c' : UInt16} (hhigh : high c = high c') (hlow : low c = low c') : c = c' := by
  have hsplit : ∀ c : UInt16, c.toNat = (high c).toNat * 256 + (low c).toNat := by
    intro c
    have hlt := c.toNat_lt
    have hand : (c &&& 0xff).toNat = c.toNat % 256 := by
      rw [UInt16.toNat_and]
      exact Nat.and_two_pow_sub_one_eq_mod c.toNat 8
    have hshift : (c >>> 8).toNat = c.toNat / 256 := by
      rw [UInt16.toNat_shiftRight, Nat.shiftRight_eq_div_pow]
      rfl
    rw [high, low, UInt16.toNat_toUInt8, UInt16.toNat_toUInt8, hand, hshift]
    omega
  apply UInt16.toNat_inj.mp
  rw [hsplit c, hsplit c', hhigh, hlow]

/-- What holds of the shifts that a round of the checksum makes, for every byte. -/
theorem shifts (y : UInt8) :
    (y ^^^ (y >>> 5)) ^^^ ((y ^^^ (y >>> 5)) >>> 5) = y ∧
    (y ^^^ (y <<< 4)) ^^^ ((y ^^^ (y <<< 4)) <<< 4) = y ∧
    (y ^^^ (0x91 : UInt8)) ^^^ ((y ^^^ 0x91) <<< 4) = (y ^^^ (y <<< 4)) ^^^ 0x81 ∧
    (y ^^^ (0x81 : UInt8)) ^^^ ((y ^^^ 0x81) >>> 5) = (y ^^^ (y >>> 5)) ^^^ 0x85 ∧
    ((y ^^^ (0x81 : UInt8)) >>> 4) ^^^ ((y ^^^ 0x81) <<< 3) = (y >>> 4) ^^^ (y <<< 3) ∧
    ((y >>> 4) ^^^ (y <<< 3) = 0 → y = 0 ∨ y = 0x81) ∧
    (y &&& ~~~MESSAGE_SEQ_MASK = MESSAGE_DEST →
      (y ^^^ 0x91) &&& ~~~MESSAGE_SEQ_MASK ≠ MESSAGE_DEST) := by
  revert y
  decide +kernel

/-- The change by a shift to the right can be taken back. -/
theorem xor_shiftRight_inj {y y' : UInt8} (h : y ^^^ (y >>> 5) = y' ^^^ (y' >>> 5)) : y = y' := by
  have hundo : ∀ y : UInt8, (y ^^^ (y >>> 5)) ^^^ ((y ^^^ (y >>> 5)) >>> 5) = y :=
    fun y => (shifts y).1
  rw [← hundo y, h, hundo y']

/-- So can the change by a shift to the left. -/
theorem xor_shiftLeft_inj {x x' : UInt8} (h : x ^^^ (x <<< 4) = x' ^^^ (x' <<< 4)) : x = x' := by
  have hundo : ∀ x : UInt8, (x ^^^ (x <<< 4)) ^^^ ((x ^^^ (x <<< 4)) <<< 4) = x :=
    fun x => (shifts x).2.1
  rw [← hundo x, h, hundo x']

/-- The byte that is mixed in tells of the data. -/
theorem mixed_inj {c c' : UInt16} {d d' : UInt8} (h : mixed c d = mixed c' d') :
    d ^^^ low c = d' ^^^ low c' := xor_shiftLeft_inj h

/-- What the result of a round tells. -/
theorem crcRound_inj {c c' : UInt16} {d d' : UInt8} (h : crcRound c d = crcRound c' d') :
    d ^^^ low c = d' ^^^ low c' ∧ high c = high c' := by
  have hhigh := congrArg high h
  rw [high_crcRound, high_crcRound] at hhigh
  have hmixed := xor_shiftRight_inj hhigh
  have hlow := congrArg low h
  rw [low_crcRound, low_crcRound, hmixed] at hlow
  exact ⟨mixed_inj hmixed, (UInt8.xor_left_inj _).mp hlow⟩

/-- A round is injective in the state. -/
theorem crcRound_state {c c' : UInt16} {d : UInt8} (h : crcRound c d = crcRound c' d) : c = c' :=
  crc_ext (crcRound_inj h).2 ((UInt8.xor_right_inj _).mp (crcRound_inj h).1)

/-- Two rounds are injective in their two bytes. -/
theorem crcRound_two {c : UInt16} {d d' e e' : UInt8}
    (h : crcRound (crcRound c d) e = crcRound (crcRound c d') e') : d = d' ∧ e = e' := by
  obtain ⟨hbyte, hhigh⟩ := crcRound_inj h
  rw [high_crcRound, high_crcRound] at hhigh
  have hmixed := xor_shiftRight_inj hhigh
  have hd : d = d' := (UInt8.xor_left_inj _).mp (mixed_inj hmixed)
  subst hd
  exact ⟨rfl, (UInt8.xor_left_inj _).mp hbyte⟩

/-- The rounds over the same bytes are injective in the state. -/
theorem foldl_crcRound_inj {q : Bytes} {c c' : UInt16}
    (h : q.foldl crcRound c = q.foldl crcRound c') : c = c' := by
  induction q generalizing c c' with
  | nil => exact h
  | cons d q ih => exact crcRound_state (ih h)

/-! ## Blocks -/

/-- A checksum put together from two bytes has these bytes. -/
theorem crc_eq_iff (c : UInt16) (a b : UInt8) :
    c = (a.toUInt16 <<< 8) ||| b.toUInt16 ↔ high c = a ∧ low c = b := by
  have hhigh : high ((a.toUInt16 <<< 8) ||| b.toUInt16) = a := by
    apply UInt8.toBitVec_inj.mp
    apply BitVec.eq_of_getLsbD_eq
    intro i hi
    interval_cases i <;> simp [high]
  have hlow : low ((a.toUInt16 <<< 8) ||| b.toUInt16) = b := by
    apply UInt8.toBitVec_inj.mp
    apply BitVec.eq_of_getLsbD_eq
    intro i hi
    interval_cases i <;> simp [low]
  constructor
  · rintro rfl
    exact ⟨hhigh, hlow⟩
  · rintro ⟨rfl, rfl⟩
    exact crc_ext hhigh.symm hlow.symm

/-- A buffer that is long enough for `n` bytes, at its last three. -/
theorem take_eq_append {buf : Bytes} {n : Nat} (h : n + 3 ≤ buf.length) :
    buf.take (n + 3) =
      buf.take n ++ [buf.getD n 0, buf.getD (n + 1) 0, buf.getD (n + 2) 0] := by
  have hget : ∀ i < buf.length, buf[i]? = some (buf.getD i 0) := fun i hi => by
    rw [List.getD_eq_getElem _ _ hi, List.getElem?_eq_getElem hi]
  rw [List.take_add_one, List.take_add_one, List.take_add_one, hget n (by omega),
    hget (n + 1) (by omega), hget (n + 2) (by omega)]
  simp

/-- The length of a block. -/
theorem length_frame (seq : UInt8) (payload : Bytes) :
    (frame seq payload).length = payload.length + MESSAGE_MIN := by
  simp [frame, MESSAGE_MIN]

/-- What `frame` writes before the trailer. -/
def head (seq : UInt8) (payload : Bytes) : Bytes :=
  UInt8.ofNat (payload.length + MESSAGE_MIN) :: seq :: payload

/-- A block is its head with the checksum of that and a synchronisation byte. -/
theorem frame_eq (seq : UInt8) (payload : Bytes) :
    frame seq payload = head seq payload ++
      [high (crc16Ccitt (head seq payload)), low (crc16Ccitt (head seq payload)),
        MESSAGE_SYNC] := rfl

/-- **What is a block**: what the sender writes around a payload that is not too long, with a
sequence number that is one. -/
theorem verdict_eq_block_iff {buf : Bytes} {n : Nat} :
    verdict buf = .block n ↔ ∃ seq payload rest, buf = frame seq payload ++ rest ∧
      seq &&& ~~~MESSAGE_SEQ_MASK = MESSAGE_DEST ∧ payload.length ≤ MESSAGE_PAYLOAD_MAX ∧
      n = payload.length + MESSAGE_MIN := by
  have hmin : MESSAGE_MIN = 5 := rfl
  have hmax : MESSAGE_PAYLOAD_MAX = 59 := rfl
  constructor
  · intro h
    unfold verdict at h
    dsimp only at h
    split at h
    · cases h
    next hlong =>
    split at h
    · cases h
    next hlen =>
    split at h
    · cases h
    next hdest =>
    split at h
    · cases h
    next hwhole =>
    split at h
    · cases h
    next hsync =>
    split at h
    · cases h
    next hcrc =>
    obtain ⟨b0, b1, tl, rfl⟩ : ∃ b0 b1 tl, buf = b0 :: b1 :: tl := by
      rcases buf with _ | ⟨b0, _ | ⟨b1, tl⟩⟩
      · exact absurd (by simp [hmin]) hlong
      · exact absurd (by simp [hmin]) hlong
      · exact ⟨b0, b1, tl, rfl⟩
    obtain ⟨m, hm⟩ : ∃ m, b0.toNat = m + 5 := ⟨b0.toNat - 5, by
      simp only [MESSAGE_POS_LEN, List.getD_cons_zero, hmin] at hlen
      omega⟩
    simp only [MESSAGE_POS_LEN, MESSAGE_POS_SEQ, List.getD_cons_zero, List.getD_cons_succ, hm,
      MESSAGE_MAX, MESSAGE_TRAILER_SIZE, MESSAGE_TRAILER_CRC, MESSAGE_TRAILER_SYNC,
      List.length_cons, not_or, not_lt, ne_eq, not_not] at hlen hdest hwhole hsync hcrc h
    have hb0 : b0 = UInt8.ofNat ((tl.take m).length + MESSAGE_MIN) := by
      apply UInt8.toNat_inj.mp
      rw [List.length_take, UInt8.toNat_ofNat', hm, hmin]
      omega
    have hhead : (b0 :: b1 :: tl).take (m + 2) = head b1 (tl.take m) := by
      rw [head, ← hb0]
      rfl
    have hlong : m + 2 + 3 ≤ (b0 :: b1 :: tl).length := by
      simp
      omega
    have htake := take_eq_append hlong
    obtain ⟨hhigh, hlow⟩ := (crc_eq_iff _ _ _).mp hcrc
    have hbytes : (b0 :: b1 :: tl).take (m + 5) = frame b1 (tl.take m) := by
      rw [frame_eq, htake, hhead]
      have e1 : m + 5 - 3 = m + 2 := rfl
      rw [e1, hhead] at hhigh hlow
      rw [hhigh, hlow, ← hsync]
      rfl
    refine ⟨b1, tl.take m, (b0 :: b1 :: tl).drop (m + 5), ?_, hdest, ?_, ?_⟩
    · rw [← hbytes, List.take_append_drop]
    · rw [List.length_take, hmax]
      omega
    · rw [List.length_take, hmin, ← Verdict.block.inj h]
      omega
  · rintro ⟨seq, payload, rest, rfl, hdest, hlen, rfl⟩
    rw [hmax] at hlen
    have hlength : (frame seq payload ++ rest).length = payload.length + 5 + rest.length := by
      rw [List.length_append, length_frame, hmin]
    have hfirst : (UInt8.ofNat (payload.length + 5)).toNat = payload.length + 5 := by
      rw [UInt8.toNat_ofNat']
      omega
    have hheadlen : (head seq payload).length = payload.length + 2 := rfl
    have happend : frame seq payload ++ rest = head seq payload ++
        (high (crc16Ccitt (head seq payload)) :: low (crc16Ccitt (head seq payload)) ::
          MESSAGE_SYNC :: rest) := by
      rw [frame_eq, List.append_assoc]
      rfl
    have hget : ∀ i, (frame seq payload ++ rest).getD (payload.length + 2 + i) 0 =
        (high (crc16Ccitt (head seq payload)) :: low (crc16Ccitt (head seq payload)) ::
          MESSAGE_SYNC :: rest).getD i 0 := by
      intro i
      rw [happend, List.getD_append_right _ _ _ _ (by omega)]
      congr 1
      omega
    have htake : (frame seq payload ++ rest).take (payload.length + 2) = head seq payload := by
      rw [happend, List.take_left' hheadlen]
    have hg0 : (frame seq payload ++ rest).getD MESSAGE_POS_LEN 0 =
        UInt8.ofNat (payload.length + MESSAGE_MIN) := rfl
    have hg1 : (frame seq payload ++ rest).getD MESSAGE_POS_SEQ 0 = seq := rfl
    have g0 := hget 0
    have g1 := hget 1
    have g2 := hget 2
    simp only [List.getD_cons_zero, List.getD_cons_succ, add_zero] at g0 g1 g2
    unfold verdict
    simp only [hg0, hg1, hfirst, hlength, MESSAGE_MAX, MESSAGE_TRAILER_SIZE, MESSAGE_TRAILER_CRC,
      MESSAGE_TRAILER_SYNC, hmin]
    rw [if_neg (by omega), if_neg (by omega), if_neg (not_not.mpr hdest), if_neg (by omega)]
    have e1 : payload.length + 5 - 3 = payload.length + 2 := rfl
    have e2 : payload.length + 5 - 1 = payload.length + 2 + 2 := rfl
    rw [e1, e2, g0, g1, g2, htake, if_neg (not_not.mpr rfl),
      if_neg (not_not.mpr ((crc_eq_iff _ _ _).mpr ⟨rfl, rfl⟩))]

/-! ## Bursts -/

/-- A block is nothing but its frame. -/
theorem verdict_whole_iff {buf : Bytes} :
    verdict buf = .block buf.length ↔ ∃ seq payload, buf = frame seq payload ∧
      seq &&& ~~~MESSAGE_SEQ_MASK = MESSAGE_DEST ∧ payload.length ≤ MESSAGE_PAYLOAD_MAX := by
  rw [verdict_eq_block_iff]
  constructor
  · rintro ⟨seq, payload, rest, rfl, hdest, hlen, hlength⟩
    rw [List.length_append, length_frame] at hlength
    have hrest : rest = [] := List.eq_nil_of_length_eq_zero (by omega)
    exact ⟨seq, payload, by rw [hrest, List.append_nil], hdest, hlen⟩
  · rintro ⟨seq, payload, rfl, hdest, hlen⟩
    exact ⟨seq, payload, [], (List.append_nil _).symm, hdest, hlen, length_frame seq payload⟩

/-- One certain change of the data changes one bit at each end. -/
theorem mixed_change (c : UInt16) (d : UInt8) : mixed c (d ^^^ 0x91) = mixed c d ^^^ 0x81 := by
  have hlinear : ∀ x : UInt8, (x ^^^ (0x91 : UInt8)) ^^^ ((x ^^^ 0x91) <<< 4) =
      (x ^^^ (x <<< 4)) ^^^ 0x81 := fun x => (shifts x).2.2.1
  have hcomm : d ^^^ (0x91 : UInt8) ^^^ (c &&& 0xff).toUInt8 =
      d ^^^ (c &&& 0xff).toUInt8 ^^^ 0x91 := by
    rw [UInt8.xor_assoc, UInt8.xor_comm 0x91, ← UInt8.xor_assoc]
  unfold mixed
  rw [hcomm]
  exact hlinear _

/-- The change that the last byte before the checksum and its first byte can both undergo. -/
theorem crcRound_change (c : UInt16) (d : UInt8) :
    high (crcRound c (d ^^^ 0x91)) = high (crcRound c d) ^^^ 0x85 ∧
      low (crcRound c (d ^^^ 0x91)) = low (crcRound c d) := by
  have hhigh : ∀ y : UInt8, (y ^^^ (0x81 : UInt8)) ^^^ ((y ^^^ 0x81) >>> 5) =
      (y ^^^ (y >>> 5)) ^^^ 0x85 := fun y => (shifts y).2.2.2.1
  have hlow : ∀ y : UInt8, ((y ^^^ (0x81 : UInt8)) >>> 4) ^^^ ((y ^^^ 0x81) <<< 3) =
      (y >>> 4) ^^^ (y <<< 3) := fun y => (shifts y).2.2.2.2.1
  rw [high_crcRound, high_crcRound, low_crcRound, low_crcRound, mixed_change, hhigh, hlow]
  exact ⟨rfl, rfl⟩

/-- **No other change of the last byte** leaves the low byte of the checksum as it is. -/
theorem low_crcRound_inj {c : UInt16} {d d' : UInt8}
    (h : low (crcRound c d) = low (crcRound c d')) : d' = d ∨ d' = d ^^^ 0x91 := by
  rw [low_crcRound, low_crcRound] at h
  have hbits := (UInt8.xor_right_inj _).mp h
  have hkernel : ∀ z : UInt8, (z >>> 4) ^^^ (z <<< 3) = 0 → z = 0 ∨ z = 0x81 :=
    fun z => (shifts z).2.2.2.2.2.1
  have hsplit : ∀ x y : UInt8, ((x ^^^ y) >>> 4) ^^^ ((x ^^^ y) <<< 3) =
      ((x >>> 4) ^^^ (x <<< 3)) ^^^ ((y >>> 4) ^^^ (y <<< 3)) := by
    intro x y
    apply UInt8.toBitVec_inj.mp
    apply BitVec.eq_of_getLsbD_eq
    intro i hi
    interval_cases i <;> simp [Bool.xor_comm, Bool.xor_left_comm]
  have hdiff : mixed c d ^^^ mixed c d' = 0 ∨ mixed c d ^^^ mixed c d' = 0x81 :=
    hkernel _ (by rw [hsplit, hbits, UInt8.xor_self])
  rcases hdiff with hsame | hchange
  · exact .inl ((UInt8.xor_left_inj _).mp (mixed_inj (UInt8.xor_eq_zero_iff.mp hsame))).symm
  · have hmixed : mixed c d' = mixed c (d ^^^ 0x91) := by
      rw [mixed_change, ← hchange, ← UInt8.xor_assoc, UInt8.xor_self, UInt8.zero_xor]
    exact .inr ((UInt8.xor_left_inj _).mp (mixed_inj hmixed))

/-- A block, seen from its trailer. -/
theorem verdict_trailer_iff {hd : Bytes} {a b s : UInt8} :
    verdict (hd ++ [a, b, s]) = .block (hd.length + 3) ↔
      (∃ seq payload, hd = head seq payload ∧ seq &&& ~~~MESSAGE_SEQ_MASK = MESSAGE_DEST ∧
        payload.length ≤ MESSAGE_PAYLOAD_MAX) ∧
      a = high (crc16Ccitt hd) ∧ b = low (crc16Ccitt hd) ∧ s = MESSAGE_SYNC := by
  have hlength : hd.length + 3 = (hd ++ [a, b, s]).length := by simp
  rw [hlength, verdict_whole_iff]
  constructor
  · rintro ⟨seq, payload, hframe, hdest, hlen⟩
    rw [frame_eq] at hframe
    obtain ⟨hhead, htrailer⟩ := List.append_inj' hframe rfl
    subst hhead
    simp only [List.cons.injEq, and_true] at htrailer
    exact ⟨⟨seq, payload, rfl, hdest, hlen⟩, htrailer⟩
  · rintro ⟨⟨seq, payload, rfl, hdest, hlen⟩, rfl, rfl, rfl⟩
    exact ⟨seq, payload, frame_eq seq payload, hdest, hlen⟩

/-- The bytes before the trailer of a block are a header and a payload. -/
theorem head_iff {hd : Bytes} :
    (∃ seq payload, hd = head seq payload ∧ seq &&& ~~~MESSAGE_SEQ_MASK = MESSAGE_DEST ∧
      payload.length ≤ MESSAGE_PAYLOAD_MAX) ↔
    2 ≤ hd.length ∧ hd.length ≤ 61 ∧ hd.head? = some (UInt8.ofNat (hd.length + 3)) ∧
      ∀ seq ∈ hd[1]?, seq &&& ~~~MESSAGE_SEQ_MASK = MESSAGE_DEST := by
  have hmin : MESSAGE_MIN = 5 := rfl
  have hmax : MESSAGE_PAYLOAD_MAX = 59 := rfl
  constructor
  · rintro ⟨seq, payload, rfl, hdest, hlen⟩
    rw [hmax] at hlen
    have hlength : (head seq payload).length = payload.length + 2 := rfl
    refine ⟨by omega, by omega, rfl, fun s hs => ?_⟩
    cases hs
    exact hdest
  · rintro ⟨htwo, hlen, hfirst, hdest⟩
    obtain ⟨l, seq, payload, rfl⟩ : ∃ l seq payload, hd = l :: seq :: payload := by
      rcases hd with _ | ⟨l, _ | ⟨seq, payload⟩⟩
      · simp at htwo
      · simp at htwo
      · exact ⟨l, seq, payload, rfl⟩
    simp only [List.length_cons] at hlen
    have hl : l = UInt8.ofNat (payload.length + MESSAGE_MIN) := Option.some.inj hfirst
    exact ⟨seq, payload, by rw [head, ← hl], hdest seq rfl, by omega⟩

/-- Only the length and the first two bytes decide about the header. -/
theorem head_congr {hd hd' : Bytes} (hlength : hd'.length = hd.length)
    (htake : hd'.take 2 = hd.take 2)
    (h : ∃ seq payload, hd = head seq payload ∧ seq &&& ~~~MESSAGE_SEQ_MASK = MESSAGE_DEST ∧
      payload.length ≤ MESSAGE_PAYLOAD_MAX) :
    ∃ seq payload, hd' = head seq payload ∧ seq &&& ~~~MESSAGE_SEQ_MASK = MESSAGE_DEST ∧
      payload.length ≤ MESSAGE_PAYLOAD_MAX := by
  have hget : ∀ i < 2, hd'[i]? = hd[i]? := fun i hi => by
    rw [← List.getElem?_take_of_lt hi, htake, List.getElem?_take_of_lt hi]
  rw [head_iff] at h ⊢
  rw [hlength, hget 1 (by omega), List.head?_eq_getElem?, hget 0 (by omega),
    ← List.head?_eq_getElem?]
  exact h

/-- The checksum of bytes around two. -/
theorem crc16Ccitt_append (p r : Bytes) (x y : UInt8) :
    crc16Ccitt (p ++ x :: y :: r) =
      r.foldl crcRound (crcRound (crcRound (crc16Ccitt p) x) y) := by
  simp [crc16Ccitt, List.foldl_append]

/-- The checksum of one byte more. -/
theorem crc16Ccitt_concat (p : Bytes) (x : UInt8) :
    crc16Ccitt (p ++ [x]) = crcRound (crc16Ccitt p) x := by
  simp [crc16Ccitt, List.foldl_append]

/-- **What a changed block is taken for**: when two neighbouring bytes of a block are changed, but
not its length, it is still a block only if the first is the last byte before the checksum and
both are changed in one certain way. -/
theorem burst_accepted_iff {p q : Bytes} {x y x' y' : UInt8} (hp : p ≠ [])
    (h : verdict (p ++ x :: y :: q) = .block (p.length + 2 + q.length)) :
    verdict (p ++ x' :: y' :: q) = .block (p.length + 2 + q.length) ↔
      (x' = x ∧ y' = y) ∨
        (q.length = 2 ∧ 2 ≤ p.length ∧ x' = x ^^^ 0x91 ∧ y' = y ^^^ 0x85) := by
  obtain ⟨l, p, rfl⟩ := List.exists_cons_of_ne_nil hp
  rcases q with _ | ⟨s, _ | ⟨t, _ | ⟨u, q⟩⟩⟩
  · -- the last byte of the checksum and the end of the block
    have hsplit : ∀ z w : UInt8, (l :: p) ++ z :: w :: [] = (l :: p).dropLast ++
        [(l :: p).getLast hp, z, w] := by
      intro z w
      conv_lhs => rw [← List.dropLast_append_getLast hp]
      simp
    have hlength : (l :: p).length + 2 + ([] : Bytes).length = (l :: p).dropLast.length + 3 := by
      simp
    rw [hsplit, hlength, verdict_trailer_iff] at h
    rw [hsplit, hlength, verdict_trailer_iff]
    obtain ⟨hhead, hhigh, rfl, rfl⟩ := h
    simp [hhead, hhigh]
  · -- the checksum
    have hlength : (l :: p).length + 2 + [s].length = (l :: p).length + 3 := rfl
    rw [hlength, verdict_trailer_iff] at h
    rw [hlength, verdict_trailer_iff]
    obtain ⟨hhead, rfl, rfl, rfl⟩ := h
    simp [hhead]
  · -- the last byte before the checksum, and its first byte
    have hsplit : ∀ z w : UInt8, (l :: p) ++ z :: w :: [s, t] = ((l :: p) ++ [z]) ++ [w, s, t] := by
      simp
    have hlength : ∀ z : UInt8, (l :: p).length + 2 + [s, t].length =
        ((l :: p) ++ [z]).length + 3 := by simp
    rw [hsplit, hlength x, verdict_trailer_iff, crc16Ccitt_concat] at h
    rw [hsplit, hlength x', verdict_trailer_iff, crc16Ccitt_concat]
    obtain ⟨hhead, rfl, rfl, rfl⟩ := h
    constructor
    · rintro ⟨hhead', rfl, hlow, -⟩
      rcases low_crcRound_inj hlow with rfl | rfl
      · exact .inl ⟨rfl, rfl⟩
      · refine .inr ⟨rfl, ?_, rfl, (crcRound_change _ x).1⟩
        -- in a block without a payload the last byte is the sequence number
        rcases p with _ | ⟨seq, p⟩
        swap
        · simp
        exfalso
        have hdest := (head_iff.mp hhead).2.2.2 x rfl
        have hdest' := (head_iff.mp hhead').2.2.2 _ rfl
        have hdiffer : ∀ x : UInt8, x &&& ~~~MESSAGE_SEQ_MASK = MESSAGE_DEST →
            (x ^^^ 0x91) &&& ~~~MESSAGE_SEQ_MASK ≠ MESSAGE_DEST := fun x => (shifts x).2.2.2.2.2.2
        exact hdiffer x hdest hdest'
    · rintro (⟨rfl, rfl⟩ | ⟨-, hlen, rfl, rfl⟩)
      · exact ⟨hhead, rfl, rfl, rfl⟩
      · obtain ⟨seq, p, rfl⟩ : ∃ seq p', p = seq :: p' := by
          rcases p with _ | ⟨seq, p⟩
          · simp at hlen
          · exact ⟨seq, p, rfl⟩
        have hchange := crcRound_change (crc16Ccitt (l :: seq :: p)) x
        have htake : ((l :: seq :: p) ++ [x ^^^ 0x91]).take 2 = ((l :: seq :: p) ++ [x]).take 2 := rfl
        exact ⟨head_congr (by simp) htake hhead, hchange.1.symm, hchange.2.symm, rfl⟩
  · -- both before the checksum
    obtain ⟨r, a, b, c, hq⟩ : ∃ r a b c, s :: t :: u :: q = r ++ [a, b, c] := by
      have htrailer : ((s :: t :: u :: q).drop q.length).length = 3 := by
        simp
        omega
      obtain ⟨a, b, c, habc⟩ := List.length_eq_three.mp htrailer
      exact ⟨(s :: t :: u :: q).take q.length, a, b, c, by
        rw [← habc, List.take_append_drop]⟩
    have hsplit : ∀ z w : UInt8, (l :: p) ++ z :: w :: (r ++ [a, b, c]) =
        ((l :: p) ++ z :: w :: r) ++ [a, b, c] := by simp
    have hlength : ∀ z w : UInt8, (l :: p).length + 2 + (r ++ [a, b, c]).length =
        ((l :: p) ++ z :: w :: r).length + 3 := fun z w => by
      simp
      omega
    rw [hq, hsplit, hlength x y, verdict_trailer_iff, crc16Ccitt_append] at h
    rw [hq, hsplit, hlength x' y', verdict_trailer_iff, crc16Ccitt_append]
    obtain ⟨hhead, rfl, rfl, rfl⟩ := h
    constructor
    · rintro ⟨-, hhigh, hlow, -⟩
      obtain ⟨hx, hy⟩ := crcRound_two (foldl_crcRound_inj (crc_ext hhigh hlow))
      exact .inl ⟨hx.symm, hy.symm⟩
    · rintro (⟨rfl, rfl⟩ | ⟨hlen, -⟩)
      · exact ⟨hhead, rfl, rfl, rfl⟩
      · rw [← hq] at hlen
        simp at hlen

/-- The change that is missed, in a block with a payload of two bytes. -/
theorem burst_accepted_iff_missed :
    verdict ([7, 0x11, 1] ++ (2 ^^^ 0x91) :: (177 ^^^ 0x85) :: [131, 0x7e]) = .block 7 ↔
      (((2 : UInt8) ^^^ 0x91) = 2 ∧ ((177 : UInt8) ^^^ 0x85) = 177) ∨
        ([131, 0x7e] : Bytes).length = 2 ∧ 2 ≤ ([7, 0x11, 1] : Bytes).length ∧
          ((2 : UInt8) ^^^ 0x91) = 2 ^^^ 0x91 ∧ ((177 : UInt8) ^^^ 0x85) = 177 ^^^ 0x85 :=
  burst_accepted_iff (by decide) (by decide +kernel)

end Cream.Model.Msgblock
