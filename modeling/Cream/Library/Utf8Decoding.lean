import Cream.Library.PercentCoding
import Mathlib

/-!
# Decoding UTF-8, byte by byte

What `utf8Decode` makes of bytes that need not be UTF-8. Bytes are read by characters and by
the parts that belong to none (`utf8_induction`, `Bad`). An ASCII byte is never part of either,
so that decoding can be split there (`utf8Decode_append`), and cutting a text at an ASCII
character is cutting its bytes (`utf8Decode_takeWhile`, `utf8Decode_dropWhile`). The number of
ASCII characters is the number of ASCII bytes (`countP_utf8Decode`).
-/

set_option autoImplicit false

namespace Cream.Library.PercentCoding

variable {a b rest bad : Bytes} {c : Char} {x : UInt8}

/-! ## ASCII -/

/-- The byte stands for a character by itself. -/
def asciiByte (b : UInt8) : Bool := b < 128

/-- The character is one byte long. -/
def asciiChar (c : Char) : Bool := c.toNat < 128

/-- An ASCII byte is below 128. -/
theorem asciiByte_iff : asciiByte x = true ↔ x.toNat < 128 := by
  unfold asciiByte
  rw [decide_eq_true_iff, UInt8.lt_iff_toNat_lt]
  rfl

/-- A character of ASCII is written as its own code. -/
theorem utf8EncodeChar_ascii (h : asciiChar c = true) :
    String.utf8EncodeChar c = [UInt8.ofNat c.toNat] := by
  have hlt : c.val.toNat < 128 := of_decide_eq_true h
  unfold String.utf8EncodeChar
  rw [if_pos (by omega)]
  rfl

/-- The bytes of any other character are not ASCII. -/
theorem utf8EncodeChar_high (h : asciiChar c = false) :
    ∀ b ∈ String.utf8EncodeChar c, asciiByte b = false := by
  have hle : ¬c.val.toNat ≤ 127 := fun hle =>
    of_decide_eq_false h (show c.val.toNat < 128 by omega)
  have hhigh : ∀ n : Nat, n < 256 → 128 ≤ n → asciiByte (UInt8.ofNat n) = false := by
    intro n hn hlow
    refine Bool.eq_false_iff.mpr fun hascii => ?_
    have hlt := asciiByte_iff.mp hascii
    rw [UInt8.toNat_ofNat_of_lt' hn] at hlt
    omega
  unfold String.utf8EncodeChar
  intro b hb
  rw [if_neg hle] at hb
  split at hb
  · simp only [List.mem_cons, List.not_mem_nil, or_false] at hb
    rcases hb with rfl | rfl <;> exact hhigh _ (by omega) (by omega)
  split at hb
  · simp only [List.mem_cons, List.not_mem_nil, or_false] at hb
    rcases hb with rfl | rfl | rfl <;> exact hhigh _ (by omega) (by omega)
  · simp only [List.mem_cons, List.not_mem_nil, or_false] at hb
    rcases hb with rfl | rfl | rfl | rfl <;> exact hhigh _ (by omega) (by omega)

/-- The character of an ASCII byte. -/
theorem ofUInt8_ascii (h : asciiByte x = true) : asciiChar (Char.ofUInt8 x) = true ∧
    String.utf8EncodeChar (Char.ofUInt8 x) = [x] := by
  have hlt := asciiByte_iff.mp h
  have hnat : (Char.ofUInt8 x).toNat = x.toNat := rfl
  have hascii : asciiChar (Char.ofUInt8 x) = true := by
    unfold asciiChar
    rw [hnat]
    exact decide_eq_true hlt
  refine ⟨hascii, ?_⟩
  rw [utf8EncodeChar_ascii hascii, hnat, UInt8.ofNat_toNat]

/-- Every ASCII character is the one of a byte. -/
theorem exists_ofUInt8 (h : asciiChar c = true) : ∃ x, asciiByte x = true ∧ c = Char.ofUInt8 x := by
  have hlt : c.toNat < 128 := of_decide_eq_true h
  have hnat : (UInt8.ofNat c.toNat).toNat = c.toNat :=
    UInt8.toNat_ofNat_of_lt' (show c.toNat < 256 by omega)
  refine ⟨UInt8.ofNat c.toNat, asciiByte_iff.mpr (by omega), Char.ext (UInt32.toNat_inj.mp ?_)⟩
  exact hnat.symm

/-! ## Characters and other parts -/

/-- A character stands at the head of some bytes exactly when they begin with its own. -/
theorem utf8Head_eq_some : utf8Head b = some c ↔ ∃ rest, b = String.utf8EncodeChar c ++ rest := by
  constructor
  · intro h
    obtain ⟨l, hl⟩ := ByteArray.exists_of_utf8DecodeChar?_eq_some h
    refine ⟨l.data.toList, ?_⟩
    have hdata := congrArg (fun a : ByteArray => a.data.toList) hl
    simpa using hdata
  · rintro ⟨rest, rfl⟩
    exact utf8Head_append c rest

/-- The first byte of a character is the only one that can be ASCII. -/
theorem asciiByte_utf8EncodeChar {l : Bytes} (h : String.utf8EncodeChar c = a ++ x :: l)
    (ha : a ≠ []) : asciiByte x = false := by
  cases hc : asciiChar c with
  | false => exact utf8EncodeChar_high hc x (by rw [h]; simp)
  | true =>
    rw [utf8EncodeChar_ascii hc] at h
    have hlength := congrArg List.length h
    have hpos := List.length_pos_of_ne_nil ha
    rw [List.length_singleton, List.length_append, List.length_cons] at hlength
    omega

/-- What is at the head of bytes does not depend on what follows an ASCII byte. -/
theorem utf8Head_append_ascii (ha : a ≠ []) (hx : asciiByte x = true) :
    utf8Head (a ++ x :: rest) = utf8Head a := by
  cases hhead : utf8Head a with
  | some c =>
    obtain ⟨r, rfl⟩ := utf8Head_eq_some.mp hhead
    exact utf8Head_eq_some.mpr ⟨r ++ x :: rest, List.append_assoc ..⟩
  | none =>
    rw [← Option.not_isSome_iff_eq_none]
    intro hsome
    obtain ⟨c, hc⟩ := Option.isSome_iff_exists.mp hsome
    obtain ⟨r, hr⟩ := utf8Head_eq_some.mp hc
    rcases List.append_eq_append_iff.mp hr with ⟨l, hl, hl'⟩ | ⟨l, hl, -⟩
    · cases l with
      | nil =>
        rw [List.append_nil] at hl
        have hsame : utf8Head a = some c := utf8Head_eq_some.mpr ⟨[], by rw [hl, List.append_nil]⟩
        rw [hhead] at hsame
        cases hsame
      | cons y l =>
        -- the character would have the ASCII byte inside
        obtain ⟨rfl, -⟩ := List.cons.inj hl'
        rw [asciiByte_utf8EncodeChar hl ha] at hx
        cases hx
    · have hsame : utf8Head a = some c := utf8Head_eq_some.mpr ⟨l, hl⟩
      rw [hhead] at hsame
      cases hsame

/-- Nor does the number of bytes that are replaced. -/
theorem replaced_append_ascii (ha : a ≠ []) (hx : asciiByte x = true) :
    replaced (a ++ x :: rest) = replaced a := by
  have hlt : x < 0x80 := of_decide_eq_true hx
  have hlow : ∀ y : UInt8, 0x80 ≤ y → ¬y ≤ x := fun y hy hle => by
    rw [UInt8.le_iff_toNat_le] at hy hle
    rw [UInt8.lt_iff_toNat_lt] at hlt
    omega
  match a, ha with
  | [lead], _ =>
    have hnot : follows lead x = false := by
      unfold follows
      split
      · simp [hlow 0xA0 (by decide)]
      split
      · simp [hlow 0x80 (by decide)]
      split
      · simp [hlow 0x90 (by decide)]
      split <;> simp [hlow 0x80 (by decide)]
    show replaced (lead :: x :: rest) = 1
    rw [replaced, hnot]
    rfl
  | [lead, second], _ =>
    show replaced (lead :: second :: x :: rest) = replaced [lead, second]
    rw [replaced, replaced]
    simp [hlow 0x80 (by decide)]
  | lead :: second :: third :: l, _ => rfl

/-- Bytes that belong to no character and are replaced together, before others. -/
structure Bad (bad rest : Bytes) : Prop where
  ne_nil : bad ≠ []
  head : utf8Head (bad ++ rest) = none
  length : bad.length = replaced (bad ++ rest)

/-- What `replaced` counts behind the first byte. -/
theorem replaced_cons (lead : UInt8) (l : Bytes) :
    ∃ tail l', l = tail ++ l' ∧ replaced (lead :: l) = tail.length + 1 ∧
      (∀ y ∈ tail, asciiByte y = false) ∧ tail.length ≤ 2 ∧ (tail.length = 2 → 0xF0 ≤ lead) := by
  have hhigh : ∀ {y : UInt8}, 0x80 ≤ y → asciiByte y = false := fun hy =>
    decide_eq_false (UInt8.not_lt.mpr hy)
  cases l with
  | nil => exact ⟨[], [], rfl, rfl, fun _ hy => (List.not_mem_nil hy).elim, by decide, nofun⟩
  | cons second l =>
    rw [replaced]
    split
    · next hfollows =>
      have hsecond : asciiByte second = false := by
        refine hhigh ?_
        have hle : ∀ y : UInt8, 0x80 ≤ y → y ≤ second → 0x80 ≤ second := fun _ => UInt8.le_trans
        unfold follows at hfollows
        split at hfollows
        · exact hle 0xA0 (by decide) (by simpa using (Bool.and_eq_true_iff.mp hfollows).1)
        split at hfollows
        · exact hle 0x80 (by decide) (by simpa using (Bool.and_eq_true_iff.mp hfollows).1)
        split at hfollows
        · exact hle 0x90 (by decide) (by simpa using (Bool.and_eq_true_iff.mp hfollows).1)
        split at hfollows
        · exact hle 0x80 (by decide) (by simpa using (Bool.and_eq_true_iff.mp hfollows).1)
        · simp only [Bool.and_eq_true, decide_eq_true_eq] at hfollows
          exact hfollows.1.2
      split
      · next hthird =>
        cases l with
        | nil => cases hthird.2
        | cons third l =>
          have hbounds := hthird.2
          simp only [List.head?_cons, Option.any_some, Bool.and_eq_true,
            decide_eq_true_eq] at hbounds
          refine ⟨[second, third], l, rfl, rfl, fun y hy => ?_, le_rfl, fun _ => hthird.1⟩
          simp only [List.mem_cons, List.not_mem_nil, or_false] at hy
          rcases hy with rfl | rfl
          · exact hsecond
          · exact hhigh hbounds.1
      · refine ⟨[second], l, rfl, rfl, fun y hy => ?_, by simp, nofun⟩
        rw [List.mem_singleton.mp hy]
        exact hsecond
    · exact ⟨[], second :: l, rfl, rfl, fun _ hy => (List.not_mem_nil hy).elim, by decide, nofun⟩

/-- An ASCII byte is a character. -/
theorem utf8Head_ascii (hx : asciiByte x = true) : utf8Head (x :: rest) = some (Char.ofUInt8 x) :=
  utf8Head_eq_some.mpr ⟨rest, by rw [(ofUInt8_ascii hx).2]; rfl⟩

/-- No byte that is replaced is ASCII, there are three of them at most, and three only behind
the lead byte of a character of four. -/
theorem Bad.spec (h : Bad bad rest) : (∀ b ∈ bad, asciiByte b = false) ∧ bad.length ≤ 3 ∧
    (bad.length = 3 → ∃ lead tail, bad = lead :: tail ∧ 0xF0 ≤ lead) := by
  obtain ⟨lead, l, rfl⟩ := List.exists_cons_of_ne_nil h.ne_nil
  have hlead : asciiByte lead = false := by
    cases hx : asciiByte lead with
    | false => rfl
    | true =>
      have hnone := h.head
      rw [List.cons_append, utf8Head_ascii hx] at hnone
      cases hnone
  obtain ⟨tail, l', hsplit, hlength, hhigh, hle, hfour⟩ := replaced_cons lead (l ++ rest)
  have hsize := h.length
  rw [List.cons_append, hlength, List.length_cons] at hsize
  obtain ⟨rfl, -⟩ := List.append_inj hsplit (by omega)
  refine ⟨fun y hy => ?_, ?_, fun hthree => ⟨lead, l, rfl, hfour ?_⟩⟩
  · rcases List.mem_cons.mp hy with rfl | hy
    · exact hlead
    · exact hhigh y hy
  · rw [List.length_cons]
    omega
  · rw [List.length_cons] at hthree
    omega

/-- **Bytes are read** by characters and by parts that belong to none. -/
theorem utf8_induction {motive : Bytes → Prop} (nil : motive [])
    (char : ∀ c rest, motive rest → motive (String.utf8EncodeChar c ++ rest))
    (bad : ∀ bad rest, Bad bad rest → motive rest → motive (bad ++ rest)) (b : Bytes) :
    motive b := by
  induction h : b.length using Nat.strong_induction_on generalizing b with
  | _ n ih =>
    cases b with
    | nil => exact nil
    | cons x l =>
      cases hhead : utf8Head (x :: l) with
      | some c =>
        obtain ⟨rest, hrest⟩ := utf8Head_eq_some.mp hhead
        have hlength := congrArg List.length hrest
        have hpos := c.utf8Size_pos
        rw [List.length_append, String.length_utf8EncodeChar, h] at hlength
        rw [hrest]
        exact char c rest (ih rest.length (by omega) rest rfl)
      | none =>
        obtain ⟨tail, rest, rfl, hreplaced, -⟩ := replaced_cons x l
        have hbad : Bad (x :: tail) rest := ⟨nofun, hhead, hreplaced.symm⟩
        rw [List.length_cons, List.length_append] at h
        exact bad (x :: tail) rest hbad (ih rest.length (by omega) rest rfl)

/-! ## What is decoded -/

/-- INTERNAL: any bound that is large enough does. -/
theorem utf8DecodeN_congr (n m : Nat) (hn : b.length ≤ n) (hm : b.length ≤ m) :
    utf8DecodeN n b = utf8DecodeN m b := by
  induction n generalizing m b with
  | zero =>
    rw [List.length_eq_zero_iff.mp (Nat.le_zero.mp hn)]
    cases m <;> rfl
  | succ n ih =>
    cases b with
    | nil => cases m <;> rfl
    | cons x l =>
      obtain ⟨m, rfl⟩ := Nat.exists_eq_succ_of_ne_zero
        (Nat.ne_of_gt (Nat.lt_of_lt_of_le (Nat.succ_pos _) hm))
      have hdrop : ∀ k, 0 < k → ((x :: l).drop k).length ≤ n ∧ ((x :: l).drop k).length ≤ m := by
        intro k hk
        rw [List.length_cons] at hn hm
        rw [List.length_drop, List.length_cons]
        omega
      rw [utf8DecodeN, utf8DecodeN]
      cases utf8Head (x :: l) with
      | some c =>
        obtain ⟨h1, h2⟩ := hdrop c.utf8Size c.utf8Size_pos
        exact congrArg (c :: ·) (ih m h1 h2)
      | none =>
        obtain ⟨tail, -, -, hreplaced, -⟩ := replaced_cons x l
        obtain ⟨h1, h2⟩ := hdrop (replaced (x :: l)) (by omega)
        exact congrArg ('\ufffd' :: ·) (ih m h1 h2)

/-- INTERNAL: a step of the decoding, for bytes that begin with some that are not none. -/
theorem utf8Decode_append_of (ha : a ≠ []) :
    utf8Decode (a ++ rest) = match utf8Head (a ++ rest) with
      | some c => c :: utf8Decode ((a ++ rest).drop c.utf8Size)
      | none => '\ufffd' :: utf8Decode ((a ++ rest).drop (replaced (a ++ rest))) := by
  obtain ⟨x, l, rfl⟩ := List.exists_cons_of_ne_nil ha
  have hdrop : ∀ k, 0 < k → ((x :: (l ++ rest)).drop k).length ≤ (l ++ rest).length := by
    intro k hk
    rw [List.length_drop, List.length_cons]
    omega
  have hstep : utf8Decode (x :: (l ++ rest)) =
      utf8DecodeN ((l ++ rest).length + 1) (x :: (l ++ rest)) := rfl
  rw [List.cons_append, hstep, utf8DecodeN]
  cases utf8Head (x :: (l ++ rest)) with
  | some c => exact congrArg (c :: ·) (utf8DecodeN_congr _ _ (hdrop _ c.utf8Size_pos) le_rfl)
  | none =>
    obtain ⟨tail, -, -, hreplaced, -⟩ := replaced_cons x (l ++ rest)
    exact congrArg ('\ufffd' :: ·) (utf8DecodeN_congr _ _ (hdrop _ (by omega)) le_rfl)

/-- A character is decoded from its bytes. -/
theorem utf8Decode_char (c : Char) (rest : Bytes) :
    utf8Decode (String.utf8EncodeChar c ++ rest) = c :: utf8Decode rest := by
  have hne : String.utf8EncodeChar c ≠ [] := by
    rw [Ne, ← List.length_eq_zero_iff, String.length_utf8EncodeChar]
    exact Nat.ne_of_gt c.utf8Size_pos
  rw [utf8Decode_append_of hne, utf8Head_append]
  show c :: utf8Decode _ = _
  rw [← String.length_utf8EncodeChar, List.drop_left]

/-- Any other part is replaced. -/
theorem utf8Decode_bad (h : Bad bad rest) :
    utf8Decode (bad ++ rest) = '\ufffd' :: utf8Decode rest := by
  rw [utf8Decode_append_of h.ne_nil, h.head]
  show '\ufffd' :: utf8Decode _ = _
  rw [← h.length, List.drop_left]

/-- An ASCII byte is decoded to its character. -/
theorem utf8Decode_ascii (hx : asciiByte x = true) :
    utf8Decode (x :: rest) = Char.ofUInt8 x :: utf8Decode rest := by
  have hchar := utf8Decode_char (Char.ofUInt8 x) rest
  rwa [(ofUInt8_ascii hx).2] at hchar

/-- **Decoding splits at an ASCII byte**, whatever the bytes before it are. -/
theorem utf8Decode_append (hx : asciiByte x = true) (a rest : Bytes) :
    utf8Decode (a ++ x :: rest) = utf8Decode a ++ Char.ofUInt8 x :: utf8Decode rest := by
  induction a using utf8_induction with
  | nil => exact utf8Decode_ascii hx
  | char c a ih => rw [List.append_assoc, utf8Decode_char, utf8Decode_char, ih, List.cons_append]
  | bad bad a h ih =>
    have hsame : Bad bad (a ++ x :: rest) := by
      have hne : bad ++ a ≠ [] := fun hnil => h.ne_nil (List.append_eq_nil_iff.mp hnil).1
      refine ⟨h.ne_nil, ?_, ?_⟩
      · rw [← List.append_assoc, utf8Head_append_ascii hne hx]
        exact h.head
      · rw [← List.append_assoc, replaced_append_ascii hne hx]
        exact h.length
    rw [List.append_assoc, utf8Decode_bad hsame, utf8Decode_bad h, ih, List.cons_append]

/-- An ASCII character has one ASCII byte, any other one none. -/
theorem countP_utf8EncodeChar (c : Char) :
    (String.utf8EncodeChar c).countP asciiByte = if asciiChar c then 1 else 0 := by
  cases hc : asciiChar c with
  | true =>
    obtain ⟨x, hx, rfl⟩ := exists_ofUInt8 hc
    rw [(ofUInt8_ascii hx).2, List.countP_singleton, hx]
  | false =>
    rw [List.countP_eq_zero.mpr fun b hb => by simp [utf8EncodeChar_high hc b hb]]
    rfl

/-- **No ASCII byte is lost or made** when bytes are decoded. -/
theorem countP_utf8Decode (b : Bytes) :
    (utf8Decode b).countP asciiChar = b.countP asciiByte := by
  induction b using utf8_induction with
  | nil => rfl
  | char c rest ih =>
    rw [utf8Decode_char, List.countP_cons, List.countP_append, countP_utf8EncodeChar, ih,
      Nat.add_comm]
  | bad bad rest h ih =>
    have hnone : bad.countP asciiByte = 0 :=
      List.countP_eq_zero.mpr fun b hb => by simp [h.spec.1 b hb]
    rw [utf8Decode_bad h, List.countP_cons, List.countP_append, hnone, ih]
    simp [asciiChar]

/-- Where no ASCII byte stands, another character does or a part that belongs to none. -/
theorem high_cases (hx : asciiByte x = false) (l : Bytes) :
    (∃ c rest, asciiChar c = false ∧ x :: l = String.utf8EncodeChar c ++ rest) ∨
      ∃ bad rest, Bad bad rest ∧ x :: l = bad ++ rest := by
  cases hhead : utf8Head (x :: l) with
  | some c =>
    obtain ⟨rest, hrest⟩ := utf8Head_eq_some.mp hhead
    refine .inl ⟨c, rest, ?_, hrest⟩
    cases hc : asciiChar c with
    | false => rfl
    | true =>
      obtain ⟨y, hy, rfl⟩ := exists_ofUInt8 hc
      rw [(ofUInt8_ascii hy).2] at hrest
      obtain ⟨rfl, -⟩ := List.cons.inj hrest
      rw [hy] at hx
      cases hx
  | none =>
    obtain ⟨tail, rest, rfl, hreplaced, -⟩ := replaced_cons x l
    exact .inr ⟨x :: tail, rest, ⟨nofun, hhead, hreplaced.symm⟩, rfl⟩

/-- Bytes that are decoded to an ASCII character first begin with its byte. -/
theorem exists_of_utf8Decode_cons {t : Text} (h : utf8Decode b = c :: t)
    (hc : asciiChar c = true) :
    ∃ x rest, b = x :: rest ∧ asciiByte x = true ∧ c = Char.ofUInt8 x ∧ t = utf8Decode rest := by
  cases b with
  | nil => cases h
  | cons x l =>
    cases hx : asciiByte x with
    | true =>
      rw [utf8Decode_ascii hx] at h
      obtain ⟨rfl, rfl⟩ := List.cons.inj h
      exact ⟨x, l, rfl, hx, rfl, rfl⟩
    | false =>
      rcases high_cases hx l with ⟨d, rest, hd, hl⟩ | ⟨bad, rest, hbad, hl⟩
      · rw [hl, utf8Decode_char] at h
        obtain ⟨rfl, -⟩ := List.cons.inj h
        rw [hc] at hd
        cases hd
      · rw [hl, utf8Decode_bad hbad] at h
        obtain ⟨rfl, -⟩ := List.cons.inj h
        exact absurd hc (by decide)

/-! ## Cutting at ASCII characters -/

/-- The characters of a kind are ASCII, and the bytes of the kind are theirs. -/
structure AsciiKind (p : Char → Bool) (q : UInt8 → Bool) : Prop where
  byte : ∀ x, asciiByte x = true → p (Char.ofUInt8 x) = q x
  highByte : ∀ x, asciiByte x = false → q x = false
  highChar : ∀ c, asciiChar c = false → p c = false

variable {p : Char → Bool} {q : UInt8 → Bool}

/-- A byte and its character are of a kind of their own. -/
theorem AsciiKind.single (hx : asciiByte x = true) :
    AsciiKind (fun c => decide (c = Char.ofUInt8 x)) fun y => decide (y = x) where
  byte _ _ := decide_eq_decide.mpr
    ⟨fun h => UInt8.toNat_inj.mp (congrArg Char.toNat h), congrArg _⟩
  highByte y hy := decide_eq_false fun h => by
    rw [h, hx] at hy
    cases hy
  highChar c hc := decide_eq_false fun h => by
    rw [h, (ofUInt8_ascii hx).1] at hc
    cases hc

/-- Two kinds of ASCII characters together. -/
theorem AsciiKind.or {p' : Char → Bool} {q' : UInt8 → Bool} (h : AsciiKind p q)
    (h' : AsciiKind p' q') : AsciiKind (fun c => p c || p' c) fun x => q x || q' x where
  byte x hx := by rw [h.byte x hx, h'.byte x hx]
  highByte x hx := by rw [h.highByte x hx, h'.highByte x hx]; rfl
  highChar c hc := by rw [h.highChar c hc, h'.highChar c hc]; rfl

/-- Bytes without the kind are decoded to characters without it. -/
theorem AsciiKind.not_mem (h : AsciiKind p q) (hb : ∀ x ∈ b, q x = false) :
    ∀ c ∈ utf8Decode b, p c = false := by
  induction b using utf8_induction with
  | nil => exact fun _ hc => (List.not_mem_nil hc).elim
  | char c rest ih =>
    rw [utf8Decode_char]
    intro d hd
    rcases List.mem_cons.mp hd with rfl | hd
    · cases hascii : asciiChar d with
      | false => exact h.highChar d hascii
      | true =>
        obtain ⟨x, hx, rfl⟩ := exists_ofUInt8 hascii
        rw [h.byte x hx]
        refine hb x (List.mem_append_left _ ?_)
        rw [(ofUInt8_ascii hx).2]
        exact List.mem_singleton_self x
    · exact ih (fun x hx => hb x (List.mem_append_right _ hx)) d hd
  | bad bad rest hbad ih =>
    rw [utf8Decode_bad hbad]
    intro d hd
    rcases List.mem_cons.mp hd with rfl | hd
    · exact h.highChar _ (by decide)
    · exact ih (fun x hx => hb x (List.mem_append_right _ hx)) d hd

/-- INTERNAL: bytes up to the first of a kind, or to their end. -/
theorem takeWhile_cases (q : UInt8 → Bool) (b : Bytes) :
    ((∀ x ∈ b, q x = false) ∧ b.takeWhile (!q ·) = b ∧ b.dropWhile (!q ·) = []) ∨
      ∃ a x rest, b = a ++ x :: rest ∧ (∀ y ∈ a, q y = false) ∧ q x = true ∧
        b.takeWhile (!q ·) = a ∧ b.dropWhile (!q ·) = x :: rest := by
  have hsplit := List.takeWhile_append_dropWhile (p := (!q ·)) (l := b)
  have hbefore : ∀ y ∈ b.takeWhile (!q ·), q y = false := fun y hy => by
    simpa using List.mem_takeWhile_imp hy
  cases hdrop : b.dropWhile (!q ·) with
  | nil =>
    rw [hdrop, List.append_nil] at hsplit
    rw [hsplit] at hbefore
    exact .inl ⟨hbefore, hsplit, rfl⟩
  | cons x rest =>
    have hx : q x = true := by
      have hhead := List.head_dropWhile_not (!q ·) (l := b) (by rw [hdrop]; simp)
      simpa [hdrop] using hhead
    exact .inr ⟨_, x, rest, by rw [← hdrop, hsplit], hbefore, hx, rfl, rfl⟩

/-- INTERNAL: the same for a text. -/
theorem takeWhile_append_cons (p : Char → Bool) {s t : Text} (hs : ∀ d ∈ s, p d = false)
    (hc : p c = true) : (s ++ c :: t).takeWhile (!p ·) = s ∧
      (s ++ c :: t).dropWhile (!p ·) = c :: t := by
  have hall : ∀ d ∈ s, (!p d) = true := fun d hd => by simp [hs d hd]
  rw [List.takeWhile_append_of_pos hall, List.dropWhile_append_of_pos hall]
  simp [hc]

/-- **Cutting bytes before a kind** cuts their text there. -/
theorem AsciiKind.utf8Decode_cut (h : AsciiKind p q) (b : Bytes) :
    utf8Decode (b.takeWhile (!q ·)) = (utf8Decode b).takeWhile (!p ·) ∧
      utf8Decode (b.dropWhile (!q ·)) = (utf8Decode b).dropWhile (!p ·) := by
  rcases takeWhile_cases q b with ⟨hnone, htake, hdrop⟩ | ⟨a, x, rest, rfl, ha, hx, htake, hdrop⟩
  · have hall : ∀ d ∈ utf8Decode b, (!p d) = true := fun d hd => by simp [h.not_mem hnone d hd]
    rw [htake, hdrop, List.takeWhile_eq_self_iff.mpr hall, List.dropWhile_eq_nil_iff.mpr hall]
    exact ⟨rfl, rfl⟩
  · have hascii : asciiByte x = true := by
      cases hascii : asciiByte x with
      | true => rfl
      | false =>
        rw [h.highByte x hascii] at hx
        cases hx
    obtain ⟨h1, h2⟩ := takeWhile_append_cons p (h.not_mem ha) (t := utf8Decode rest)
      ((h.byte x hascii).trans hx)
    rw [htake, hdrop, utf8Decode_append hascii, h1, h2, utf8Decode_ascii hascii]
    exact ⟨rfl, rfl⟩

/-- **Dropping a kind** at the head of bytes drops it from their text. -/
theorem AsciiKind.utf8Decode_dropWhile (h : AsciiKind p q) (b : Bytes) :
    utf8Decode (b.dropWhile q) = (utf8Decode b).dropWhile p := by
  induction b with
  | nil => rfl
  | cons x rest ih =>
    cases hascii : asciiByte x with
    | true =>
      rw [utf8Decode_ascii hascii, List.dropWhile_cons, List.dropWhile_cons, h.byte x hascii]
      cases q x with
      | true => exact ih
      | false => exact utf8Decode_ascii hascii
    | false =>
      rw [List.dropWhile_cons_of_neg (by simp [h.highByte x hascii])]
      -- the character at the head is not ASCII
      cases ht : utf8Decode (x :: rest) with
      | nil => rfl
      | cons c t =>
        refine (List.dropWhile_cons_of_neg ?_).symm
        cases hc : asciiChar c with
        | false => simp [h.highChar c hc]
        | true =>
          obtain ⟨y, l, hl, hy, -, -⟩ := exists_of_utf8Decode_cons ht hc
          obtain ⟨rfl, -⟩ := List.cons.inj hl
          rw [hy] at hascii
          cases hascii

end Cream.Library.PercentCoding
