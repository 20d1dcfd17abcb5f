import Cream.Library.Url

/-!
# Targets as bytes

A request line is bytes, whatever text a server makes of them: `percentDecodeBytes` and
`paramsOfBytes` read a target as the client meant it. The rules compare this with what is read
off the decoded text. The path loses no ASCII byte and gets none (`percentDecode_utf8Decode`,
`percentDecode_of_formDecode`), the query keeps its symbols exactly if it is UTF-8
(`short_symbols_utf8Decode`, `symbolsOfBytes_utf8Encode`).
-/

set_option autoImplicit false

namespace Cream.Library

open PercentCoding

namespace Url

/-! ## Reading bytes -/

/-- The byte two hexadecimal digits stand for. -/
def hexByteOf (a b : UInt8) : Option UInt8 := hexByte (Char.ofUInt8 a) (Char.ofUInt8 b)

/-- RFC 3986 decoding; `none` when a percent sign does not begin an escape. -/
def percentDecodeBytes : Bytes → Option Bytes
  | [] => some []
  | 0x25 :: a :: b :: rest =>
    match hexByteOf a b with
    | some byte => (percentDecodeBytes rest).map (byte :: ·)
    | none => none
  | x :: rest => if x = 0x25 then none else (percentDecodeBytes rest).map (x :: ·)

/-- The symbol of a byte of a query. -/
def symbolOf (x : UInt8) : Symbol :=
  if x = 0x26 then .ampersand
  else if x = 0x3D then .equals
  else if x = 0x2B then .byte 0x20
  else .byte x

/-- The symbols of a query. -/
def symbolsOfBytes : Bytes → List Symbol
  | [] => []
  | 0x25 :: a :: b :: rest =>
    match hexByteOf a b with
    | some byte => .byte byte :: symbolsOfBytes rest
    | none => .byte 0x25 :: symbolsOfBytes (a :: b :: rest)
  | x :: rest => symbolOf x :: symbolsOfBytes rest

/-- The sequence of the parameters of a query. -/
def paramsOfBytes (query : Bytes) : List (List Symbol) :=
  (groups (symbolsOfBytes query)).filter fun g => !g.isEmpty

variable {a b x byte : UInt8} {c : Char} {l rest high : Bytes} {t : Text}

/-- The byte does not begin an escape. -/
def SingleByte (x : UInt8) (rest : Bytes) : Prop :=
  x = 0x25 → ∀ a b rest', rest = a :: b :: rest' → hexByteOf a b = none

/-- The byte of an ASCII character is ASCII. -/
theorem asciiByte_of_asciiChar (h : asciiChar (Char.ofUInt8 x) = true) : asciiByte x = true :=
  asciiByte_iff.mpr (of_decide_eq_true h : (Char.ofUInt8 x).toNat < 128)

/-- The digits of an escape are ASCII. -/
theorem asciiByte_of_hexByteOf (h : hexByteOf a b = some byte) :
    asciiByte a = true ∧ asciiByte b = true :=
  (asciiChar_of_hexByte h).imp asciiByte_of_asciiChar asciiByte_of_asciiChar

/-- An escape is decoded to an escape. -/
theorem utf8Decode_escape (h : hexByteOf a b = some byte) :
    utf8Decode (0x25 :: a :: b :: rest) =
      '%' :: Char.ofUInt8 a :: Char.ofUInt8 b :: utf8Decode rest := by
  obtain ⟨ha, hb⟩ := asciiByte_of_hexByteOf h
  rw [utf8Decode_ascii (by decide), utf8Decode_ascii ha, utf8Decode_ascii hb]
  rfl

/-- A byte that begins no escape is decoded to a character that begins none. -/
theorem SingleByte.single (h : SingleByte x rest) : Single (Char.ofUInt8 x) (utf8Decode rest) := by
  intro hx d e r hr
  have hpercent : x = 0x25 := UInt8.toNat_inj.mp (congrArg Char.toNat hx)
  rw [Option.eq_none_iff_forall_ne_some]
  intro byte hbyte
  obtain ⟨hd, he⟩ := asciiChar_of_hexByte hbyte
  obtain ⟨y, l, rfl, -, rfl, hl⟩ := exists_of_utf8Decode_cons hr hd
  obtain ⟨z, l, rfl, -, rfl, -⟩ := exists_of_utf8Decode_cons hl.symm he
  have hnone : hexByteOf y z = none := h hpercent y z l rfl
  unfold hexByteOf at hnone
  rw [hnone] at hbyte
  cases hbyte

/-- No other character begins an escape. -/
theorem single_high (h : asciiChar c = false) (t : Text) : Single c t := by
  rintro rfl
  exact absurd h (by decide)

/-- **Bytes are read** by escapes, single ASCII bytes, other characters, and parts that belong
to none. -/
theorem bytes_induction {motive : Bytes → Prop} (nil : motive [])
    (escape : ∀ a b byte rest, hexByteOf a b = some byte → motive rest →
      motive (0x25 :: a :: b :: rest))
    (ascii : ∀ x rest, asciiByte x = true → SingleByte x rest → motive rest → motive (x :: rest))
    (char : ∀ c rest, asciiChar c = false → motive rest →
      motive (String.utf8EncodeChar c ++ rest))
    (bad : ∀ bad rest, Bad bad rest → motive rest → motive (bad ++ rest)) (l : Bytes) :
    motive l := by
  induction h : l.length using Nat.strong_induction_on generalizing l with
  | _ n ih =>
    cases l with
    | nil => exact nil
    | cons x l =>
      rw [List.length_cons] at h
      cases hx : asciiByte x with
      | true =>
        have hl : motive l := ih l.length (by omega) l rfl
        by_cases hescape : ∃ a b byte rest, x = 0x25 ∧ l = a :: b :: rest ∧ hexByteOf a b = some byte
        · obtain ⟨a, b, byte, rest, rfl, rfl, hbyte⟩ := hescape
          rw [List.length_cons, List.length_cons] at h
          exact escape a b byte rest hbyte (ih rest.length (by omega) rest rfl)
        · refine ascii x l hx (fun hpercent a b rest hrest => ?_) hl
          rw [Option.eq_none_iff_forall_ne_some]
          exact fun byte hbyte => hescape ⟨a, b, byte, rest, hpercent, hrest, hbyte⟩
      | false =>
        rcases high_cases hx l with ⟨c, rest, hc, hl⟩ | ⟨part, rest, hbad, hl⟩
        · have hlength := congrArg List.length hl
          have hpos := c.utf8Size_pos
          rw [List.length_cons, List.length_append, String.length_utf8EncodeChar] at hlength
          rw [hl]
          exact char c rest hc (ih rest.length (by omega) rest rfl)
        · have hlength := congrArg List.length hl
          have hpos := List.length_pos_of_ne_nil hbad.ne_nil
          rw [List.length_cons, List.length_append] at hlength
          rw [hl]
          exact bad part rest hbad (ih rest.length (by omega) rest rfl)

/-! ## What is read -/

/-- An escape is decoded to its byte. -/
theorem percentDecodeBytes_escape (h : hexByteOf a b = some byte) :
    percentDecodeBytes (0x25 :: a :: b :: rest) = (percentDecodeBytes rest).map (byte :: ·) := by
  rw [percentDecodeBytes, h]

/-- A byte that begins no escape stands for itself, unless it is a percent sign. -/
theorem percentDecodeBytes_single (h : SingleByte x rest) : percentDecodeBytes (x :: rest) =
    if x = 0x25 then none else (percentDecodeBytes rest).map (x :: ·) := by
  by_cases hx : x = 0x25
  · subst hx
    rcases rest with _ | ⟨a, _ | ⟨b, r⟩⟩
    · rfl
    · rfl
    · rw [percentDecodeBytes, h rfl a b r rfl]
      rfl
  · rw [percentDecodeBytes]
    exact fun a b r hx' => absurd hx' hx

/-- An escape is one symbol. -/
theorem symbolsOfBytes_escape (h : hexByteOf a b = some byte) :
    symbolsOfBytes (0x25 :: a :: b :: rest) = .byte byte :: symbolsOfBytes rest := by
  rw [symbolsOfBytes, h]

/-- So is a byte that begins no escape. -/
theorem symbolsOfBytes_single (h : SingleByte x rest) :
    symbolsOfBytes (x :: rest) = symbolOf x :: symbolsOfBytes rest := by
  by_cases hx : x = 0x25
  · subst hx
    rcases rest with _ | ⟨a, _ | ⟨b, r⟩⟩
    · rfl
    · rfl
    · rw [symbolsOfBytes, h rfl a b r rfl]
      rfl
  · rw [symbolsOfBytes]
    exact fun a b r hx' => absurd hx' hx

/-- Bytes that are not ASCII are passed over. -/
theorem percentDecodeBytes_high (h : ∀ x ∈ high, asciiByte x = false) :
    percentDecodeBytes (high ++ rest) = (percentDecodeBytes rest).map (high ++ ·) := by
  induction high with
  | nil => exact (Option.map_id' (x := percentDecodeBytes rest)).symm
  | cons x high ih =>
    have hx : x ≠ 0x25 := by
      rintro rfl
      exact absurd (h 0x25 List.mem_cons_self) (by decide)
    have hsingle : SingleByte x (high ++ rest) := fun hpercent => absurd hpercent hx
    rw [List.cons_append, percentDecodeBytes_single hsingle, if_neg hx,
      ih fun y hy => h y (List.mem_cons_of_mem _ hy), Option.map_map]
    rfl

/-- Bytes that are not ASCII stand for themselves. -/
theorem symbolsOfBytes_high (h : ∀ x ∈ high, asciiByte x = false) :
    symbolsOfBytes (high ++ rest) = high.map .byte ++ symbolsOfBytes rest := by
  induction high with
  | nil => rfl
  | cons x high ih =>
    have hne : ∀ y : UInt8, asciiByte y = true → x ≠ y := by
      rintro y hy rfl
      rw [h x List.mem_cons_self] at hy
      cases hy
    have hsingle : SingleByte x (high ++ rest) := fun hpercent =>
      absurd hpercent (hne 0x25 (by decide))
    have hsymbol : symbolOf x = .byte x := by
      unfold symbolOf
      rw [if_neg (hne _ (by decide)), if_neg (hne _ (by decide)), if_neg (hne _ (by decide))]
    rw [List.cons_append, symbolsOfBytes_single hsingle, hsymbol,
      ih fun y hy => h y (List.mem_cons_of_mem _ hy)]
    rfl

/-- What is decoded from a beginning of the bytes is a beginning of what they decode to. -/
theorem percentDecodeBytes_append {decoded : Bytes} (h : percentDecodeBytes l = some decoded)
    (rest : Bytes) :
    percentDecodeBytes (l ++ rest) = (percentDecodeBytes rest).map (decoded ++ ·) := by
  have hhigh : ∀ {high l decoded : Bytes}, (∀ x ∈ high, asciiByte x = false) →
      (∀ {decoded}, percentDecodeBytes l = some decoded →
        percentDecodeBytes (l ++ rest) = (percentDecodeBytes rest).map (decoded ++ ·)) →
      percentDecodeBytes (high ++ l) = some decoded →
      percentDecodeBytes (high ++ l ++ rest) = (percentDecodeBytes rest).map (decoded ++ ·) := by
    intro high l decoded hhigh ih h
    rw [percentDecodeBytes_high hhigh] at h
    obtain ⟨tail, htail, rfl⟩ := Option.map_eq_some_iff.mp h
    rw [List.append_assoc, percentDecodeBytes_high hhigh, ih htail, Option.map_map]
    simp only [Function.comp_def, List.append_assoc]
  induction l using bytes_induction generalizing decoded with
  | nil =>
    cases h
    exact (Option.map_id' (x := percentDecodeBytes rest)).symm
  | escape a b byte l hbyte ih =>
    rw [percentDecodeBytes_escape hbyte] at h
    obtain ⟨tail, htail, rfl⟩ := Option.map_eq_some_iff.mp h
    rw [List.cons_append, List.cons_append, List.cons_append, percentDecodeBytes_escape hbyte,
      ih htail, Option.map_map]
    rfl
  | ascii x l _ hx ih =>
    rw [percentDecodeBytes_single hx] at h
    split at h
    · cases h
    · next hpercent =>
      obtain ⟨tail, htail, rfl⟩ := Option.map_eq_some_iff.mp h
      have hsingle : SingleByte x (l ++ rest) := fun hx => absurd hx hpercent
      rw [List.cons_append, percentDecodeBytes_single hsingle, if_neg hpercent, ih htail,
        Option.map_map]
      rfl
  | char c l hc ih => exact hhigh (utf8EncodeChar_high hc) ih h
  | bad bad l hbad ih => exact hhigh hbad.spec.1 ih h

/-! ## Paths -/

/-- **The ASCII bytes of a path** are those its decoded text stands for. -/
theorem percentDecode_utf8Decode {decoded : Bytes}
    (h : percentDecode (utf8Decode l) = some decoded) :
    ∃ bytes, percentDecodeBytes l = some bytes ∧
      bytes.countP asciiByte = decoded.countP asciiByte := by
  induction l using bytes_induction generalizing decoded with
  | nil =>
    cases h
    exact ⟨[], rfl, rfl⟩
  | escape a b byte l hbyte ih =>
    rw [utf8Decode_escape hbyte, percentDecode_escape hbyte] at h
    obtain ⟨tail, htail, rfl⟩ := Option.map_eq_some_iff.mp h
    obtain ⟨bytes, hbytes, hcount⟩ := ih htail
    refine ⟨byte :: bytes, by rw [percentDecodeBytes_escape hbyte, hbytes]; rfl, ?_⟩
    rw [List.countP_cons, List.countP_cons, hcount]
  | ascii x l hascii hx ih =>
    rw [utf8Decode_ascii hascii, percentDecode_single hx.single] at h
    split at h
    · cases h
    · next hpercent =>
      obtain ⟨tail, htail, rfl⟩ := Option.map_eq_some_iff.mp h
      obtain ⟨bytes, hbytes, hcount⟩ := ih htail
      have hne : x ≠ 0x25 := by
        rintro rfl
        exact hpercent rfl
      refine ⟨x :: bytes, by rw [percentDecodeBytes_single hx, if_neg hne, hbytes]; rfl, ?_⟩
      rw [(ofUInt8_ascii hascii).2, List.countP_append, List.countP_cons, List.countP_singleton,
        hcount, Nat.add_comm]
  | char c l hc ih =>
    have hne : c ≠ '%' := by
      rintro rfl
      exact absurd hc (by decide)
    rw [utf8Decode_char, percentDecode_single (single_high hc _), if_neg hne] at h
    obtain ⟨tail, htail, rfl⟩ := Option.map_eq_some_iff.mp h
    obtain ⟨bytes, hbytes, hcount⟩ := ih htail
    refine ⟨String.utf8EncodeChar c ++ bytes, ?_, ?_⟩
    · rw [percentDecodeBytes_high (utf8EncodeChar_high hc), hbytes]
      rfl
    · rw [List.countP_append, List.countP_append, hcount]
  | bad bad l hbad ih =>
    rw [utf8Decode_bad hbad, percentDecode_single (single_high (by decide) _),
      if_neg (by decide)] at h
    obtain ⟨tail, htail, rfl⟩ := Option.map_eq_some_iff.mp h
    obtain ⟨bytes, hbytes, hcount⟩ := ih htail
    refine ⟨bad ++ bytes, ?_, ?_⟩
    · rw [percentDecodeBytes_high hbad.spec.1, hbytes]
      rfl
    · have hnone : bad.countP asciiByte = 0 :=
        List.countP_eq_zero.mpr fun b hb => by simp [hbad.spec.1 b hb]
      rw [List.countP_append, List.countP_append, hnone, hcount, countP_utf8EncodeChar]
      simp [asciiChar]

/-- A character that begins no escape ends the escapes. -/
theorem escapes_single {c : Char} {t : Text} (h : Single c t) :
    PercentCoding.escapes (c :: t) = if c = '%' then none else some ([], c :: t) := by
  by_cases hc : c = '%'
  · subst hc
    rcases t with _ | ⟨a, _ | ⟨b, r⟩⟩
    · rfl
    · rfl
    · rw [PercentCoding.escapes, h rfl a b r rfl]
      rfl
  · rw [PercentCoding.escapes]
    exact fun a b r hc' => absurd hc' hc

/-- A run of escapes stands for its bytes. -/
theorem percentDecode_of_escapes {t rest : Text} {bytes : Bytes}
    (h : PercentCoding.escapes t = some (bytes, rest)) :
    percentDecode t = (percentDecode rest).map (bytes ++ ·) := by
  induction t using read_induction generalizing bytes with
  | nil =>
    cases h
    exact (Option.map_id' (x := percentDecode [])).symm
  | escape a b byte t hbyte ih =>
    rw [PercentCoding.escapes, hbyte] at h
    obtain ⟨⟨tail, rest'⟩, htail, heq⟩ := Option.map_eq_some_iff.mp h
    cases heq
    rw [percentDecode_escape hbyte, ih htail, Option.map_map]
    rfl
  | single c t hc ih =>
    rw [escapes_single hc] at h
    split at h
    · cases h
    · cases h
      exact (Option.map_id' (x := percentDecode (c :: t))).symm

/-- **The form decoding** of a path keeps the number of ASCII characters. -/
theorem percentDecode_of_formDecode {t u : Text} (h : formDecode t = some u) :
    ∃ bytes, percentDecode t = some bytes ∧ bytes.countP asciiByte = u.countP asciiChar := by
  have hall : ∀ (n : Nat) (t u : Text), formDecodeN n t = some u →
      ∃ bytes, percentDecode t = some bytes ∧ bytes.countP asciiByte = u.countP asciiChar := by
    intro n
    induction n with
    | zero =>
      intro t u h
      cases t with
      | nil =>
        cases h
        exact ⟨[], rfl, rfl⟩
      | cons c t => cases h
    | succ n ih =>
      intro t u h
      cases t with
      | nil =>
        cases h
        exact ⟨[], rfl, rfl⟩
      | cons c t =>
        rw [formDecodeN] at h
        split at h
        · next hplus =>
          obtain ⟨tail, htail, rfl⟩ := Option.map_eq_some_iff.mp h
          obtain ⟨bytes, hbytes, hcount⟩ := ih t tail htail
          have hsingle : Single c t := fun hpercent => absurd (hplus.symm.trans hpercent) (by decide)
          refine ⟨String.utf8EncodeChar c ++ bytes, ?_, ?_⟩
          · rw [percentDecode_single hsingle, if_neg (by rw [hplus]; decide), hbytes]
            rfl
          · rw [List.countP_append, List.countP_cons, hcount, hplus, Nat.add_comm]
            rfl
        split at h
        · split at h
          · next run rest hrun =>
            obtain ⟨tail, htail, rfl⟩ := Option.map_eq_some_iff.mp h
            obtain ⟨bytes, hbytes, hcount⟩ := ih rest tail htail
            refine ⟨run ++ bytes, by rw [percentDecode_of_escapes hrun, hbytes]; rfl, ?_⟩
            rw [List.countP_append, List.countP_append, hcount, countP_utf8Decode]
          · cases h
        · next hpercent =>
          obtain ⟨tail, htail, rfl⟩ := Option.map_eq_some_iff.mp h
          obtain ⟨bytes, hbytes, hcount⟩ := ih t tail htail
          have hsingle : Single c t := fun h => absurd h hpercent
          refine ⟨String.utf8EncodeChar c ++ bytes, ?_, ?_⟩
          · rw [percentDecode_single hsingle, if_neg hpercent, hbytes]
            rfl
          · rw [List.countP_append, List.countP_cons, hcount, countP_utf8EncodeChar, Nat.add_comm]
  exact hall t.length t u h

/-! ## Queries -/

/-- How much a symbol counts for: nothing if it is an ampersand or a byte that does not count. -/
def symbolWeight (counts : UInt8 → Bool) : Symbol → Nat
  | .ampersand => 0
  | .equals => 1
  | .byte b => if counts b then 1 else 0

/-- How much some symbols count for. -/
def symbolsWeight (counts : UInt8 → Bool) (l : List Symbol) : Nat :=
  (l.map (symbolWeight counts)).sum

variable {counts : UInt8 → Bool}

/-- The weight of one symbol more. -/
theorem symbolsWeight_cons (s : Symbol) (l : List Symbol) :
    symbolsWeight counts (s :: l) = symbolWeight counts s + symbolsWeight counts l := rfl

/-- The weight of symbols behind each other. -/
theorem symbolsWeight_append (l l' : List Symbol) :
    symbolsWeight counts (l ++ l') = symbolsWeight counts l + symbolsWeight counts l' := by
  unfold symbolsWeight
  rw [List.map_append, List.sum_append]

/-- Of bytes those that count are counted. -/
theorem symbolsWeight_bytes (b : Bytes) : symbolsWeight counts (b.map .byte) = b.countP counts := by
  induction b with
  | nil => rfl
  | cons x b ih =>
    rw [List.map_cons, symbolsWeight_cons, ih, List.countP_cons, Nat.add_comm]
    rfl

/-- The parameters count for as much as the symbols they are read off. -/
theorem symbolsWeight_groups (l : List Symbol) :
    symbolsWeight counts ((groups l).filter fun g => !g.isEmpty).flatten =
      symbolsWeight counts l := by
  rw [List.flatten_filter_not_isEmpty, flatten_groups]
  induction l with
  | nil => rfl
  | cons s l ih =>
    cases s with
    | ampersand =>
      rw [List.filter_cons_of_neg (by simp), ih, symbolsWeight_cons]
      exact (Nat.zero_add _).symm
    | equals | byte b =>
      rw [List.filter_cons_of_pos (by simp), symbolsWeight_cons, symbolsWeight_cons, ih]

/-- Queries with the same parameters count for the same. -/
theorem symbolsWeight_of_params {q : Text} {bytes : Bytes} (h : params q = paramsOfBytes bytes) :
    symbolsWeight counts (symbols q) = symbolsWeight counts (symbolsOfBytes bytes) := by
  rw [← symbolsWeight_groups (symbols q), ← symbolsWeight_groups (symbolsOfBytes bytes)]
  exact congrArg (fun p => symbolsWeight counts p.flatten) h

/-- An ASCII byte and its character are the same symbol. -/
theorem symbolOf_ascii (h : asciiByte x = true) : symbolsOf (Char.ofUInt8 x) = [symbolOf x] := by
  have hne : ∀ y : UInt8, Char.ofUInt8 x = Char.ofUInt8 y ↔ x = y := fun y =>
    ⟨fun heq => UInt8.toNat_inj.mp (congrArg Char.toNat heq), congrArg _⟩
  have hamp : Char.ofUInt8 x = '&' ↔ x = 0x26 := hne 0x26
  have heq : Char.ofUInt8 x = '=' ↔ x = 0x3D := hne 0x3D
  have hplus : Char.ofUInt8 x = '+' ↔ x = 0x2B := hne 0x2B
  unfold symbolsOf symbolOf
  rw [(ofUInt8_ascii h).2]
  by_cases h1 : x = 0x26
  · rw [if_pos (hamp.mpr h1), if_pos h1]
  rw [if_neg fun h => h1 (hamp.mp h), if_neg h1]
  by_cases h2 : x = 0x3D
  · rw [if_pos (heq.mpr h2), if_pos h2]
  rw [if_neg fun h => h2 (heq.mp h), if_neg h2]
  by_cases h3 : x = 0x2B
  · rw [if_pos (hplus.mpr h3), if_pos h3]
  rw [if_neg fun h => h3 (hplus.mp h), if_neg h3]
  rfl

/-- Any other character is its bytes. -/
theorem symbolsOf_high (h : asciiChar c = false) :
    symbolsOf c = (String.utf8EncodeChar c).map .byte := by
  have hne : ∀ d : Char, asciiChar d = true → c ≠ d := by
    rintro d hd rfl
    rw [hd] at h
    cases h
  unfold symbolsOf
  rw [if_neg (hne _ (by decide)), if_neg (hne _ (by decide)), if_neg (hne _ (by decide))]

/-- The bytes a decoder puts where it replaces others. -/
def replacement : Bytes := [0xEF, 0xBF, 0xBD]

/-- The text of an escape has its symbol. -/
theorem symbols_decode_escape (h : hexByteOf a b = some byte) :
    symbols (utf8Decode (0x25 :: a :: b :: l)) = .byte byte :: symbols (utf8Decode l) := by
  rw [utf8Decode_escape h, symbols_escape h]

/-- The text of an ASCII byte has its symbol. -/
theorem symbols_decode_ascii (hx : asciiByte x = true) (h : SingleByte x l) :
    symbols (utf8Decode (x :: l)) = symbolOf x :: symbols (utf8Decode l) := by
  rw [utf8Decode_ascii hx, symbols_single h.single, symbolOf_ascii hx]
  rfl

/-- The text of another character has its bytes for symbols. -/
theorem symbols_decode_char (h : asciiChar c = false) :
    symbols (utf8Decode (String.utf8EncodeChar c ++ l)) =
      (String.utf8EncodeChar c).map .byte ++ symbols (utf8Decode l) := by
  rw [utf8Decode_char, symbols_single (single_high h _), symbolsOf_high h]

/-- Where bytes are replaced, the symbols are those of the replacement. -/
theorem symbols_decode_bad (h : Bad high l) : symbols (utf8Decode (high ++ l)) =
    replacement.map .byte ++ symbols (utf8Decode l) := by
  rw [utf8Decode_bad h, symbols_single (single_high (by decide) _), symbolsOf_high (by decide)]
  rfl

/-- **A query that is cut off** in front of an ASCII character other than a separator has lost
a parameter or a part of one. -/
theorem ascii_symbols_lt (hc : hexValue c = none) (hascii : asciiChar c = true) (hpercent : c ≠ '%')
    (hamp : c ≠ '&') (p r : Text) :
    symbolsWeight asciiByte (symbols p) < symbolsWeight asciiByte (symbols (p ++ c :: r)) := by
  have hsingle : Single c r := fun h => absurd h hpercent
  have hone : symbolsWeight asciiByte (symbolsOf c) = 1 := by
    unfold symbolsOf
    rw [if_neg hamp]
    split
    · rfl
    split
    · rfl
    · rw [symbolsWeight_bytes, countP_utf8EncodeChar, if_pos hascii]
  rw [symbols_append hc, symbols_single hsingle, symbolsWeight_append, symbolsWeight_append, hone]
  omega

/-- **The ASCII symbols of a query** are those of its text. -/
theorem ascii_symbols_utf8Decode (l : Bytes) :
    symbolsWeight asciiByte (symbols (utf8Decode l)) =
      symbolsWeight asciiByte (symbolsOfBytes l) := by
  induction l using bytes_induction with
  | nil => rfl
  | escape a b byte l hbyte ih =>
    rw [symbols_decode_escape hbyte, symbolsOfBytes_escape hbyte, symbolsWeight_cons,
      symbolsWeight_cons, ih]
  | ascii x l hascii hx ih =>
    rw [symbols_decode_ascii hascii hx, symbolsOfBytes_single hx, symbolsWeight_cons,
      symbolsWeight_cons, ih]
  | char c l hc ih =>
    rw [symbols_decode_char hc, symbolsOfBytes_high (utf8EncodeChar_high hc),
      symbolsWeight_append, symbolsWeight_append, ih]
  | bad bad l hbad ih =>
    have hnone : bad.countP asciiByte = 0 :=
      List.countP_eq_zero.mpr fun b hb => by simp [hbad.spec.1 b hb]
    rw [symbols_decode_bad hbad, symbolsOfBytes_high hbad.spec.1, symbolsWeight_append,
      symbolsWeight_append, symbolsWeight_bytes, symbolsWeight_bytes, hnone, ih]
    rfl

/-- The byte begins no character of four. -/
def shortByte (b : UInt8) : Bool := b < 0xF0

/-- **A query that is not UTF-8** is made longer: what is put for bytes that belong to no
character counts for more than they do. -/
theorem short_symbols_utf8Decode (l : Bytes) :
    symbolsWeight shortByte (symbolsOfBytes l) ≤
      symbolsWeight shortByte (symbols (utf8Decode l)) ∧
    (symbolsWeight shortByte (symbols (utf8Decode l)) =
      symbolsWeight shortByte (symbolsOfBytes l) → utf8Encode (utf8Decode l) = l) := by
  induction l using bytes_induction with
  | nil => exact ⟨le_rfl, fun _ => rfl⟩
  | escape a b byte l hbyte ih =>
    obtain ⟨ha, hb⟩ := asciiByte_of_hexByteOf hbyte
    rw [symbols_decode_escape hbyte, symbolsOfBytes_escape hbyte, symbolsWeight_cons,
      symbolsWeight_cons]
    refine ⟨by omega, fun h => ?_⟩
    rw [utf8Decode_escape hbyte, utf8Encode_cons, utf8Encode_cons, utf8Encode_cons,
      (ofUInt8_ascii ha).2, (ofUInt8_ascii hb).2, ih.2 (by omega)]
    rfl
  | ascii x l hascii hx ih =>
    rw [symbols_decode_ascii hascii hx, symbolsOfBytes_single hx, symbolsWeight_cons,
      symbolsWeight_cons]
    refine ⟨by omega, fun h => ?_⟩
    rw [utf8Decode_ascii hascii, utf8Encode_cons, (ofUInt8_ascii hascii).2, ih.2 (by omega)]
    rfl
  | char c l hc ih =>
    rw [symbols_decode_char hc, symbolsOfBytes_high (utf8EncodeChar_high hc),
      symbolsWeight_append, symbolsWeight_append]
    refine ⟨by omega, fun h => ?_⟩
    rw [utf8Decode_char, utf8Encode_cons, ih.2 (by omega)]
  | bad bad l hbad ih =>
    obtain ⟨hhigh, hle, hthree⟩ := hbad.spec
    have hless : bad.countP shortByte < 3 := by
      rcases Nat.lt_or_eq_of_le hle with hlt | heq
      · exact lt_of_le_of_lt List.countP_le_length hlt
      · obtain ⟨lead, tail, rfl, hlead⟩ := hthree heq
        have hlong : shortByte lead = false := decide_eq_false (UInt8.not_lt.mpr hlead)
        rw [List.countP_cons_of_neg (by simp [hlong])]
        rw [List.length_cons] at heq
        have := List.countP_le_length (p := shortByte) (l := tail)
        omega
    have hcount : symbolsWeight shortByte (replacement.map .byte) = 3 := by decide
    rw [symbols_decode_bad hbad, symbolsOfBytes_high hhigh, symbolsWeight_append,
      symbolsWeight_append, symbolsWeight_bytes bad, hcount]
    exact ⟨by omega, fun h => by omega⟩

/-- The symbols of the bytes of a text. -/
theorem symbolsOfBytes_utf8Encode (t : Text) : symbolsOfBytes (utf8Encode t) = symbols t := by
  induction t using read_induction with
  | nil => rfl
  | escape d e byte t hbyte ih =>
    obtain ⟨hd, he⟩ := asciiChar_of_hexByte hbyte
    obtain ⟨a, ha, rfl⟩ := exists_ofUInt8 hd
    obtain ⟨b, hb, rfl⟩ := exists_ofUInt8 he
    have hencode : utf8Encode ('%' :: Char.ofUInt8 a :: Char.ofUInt8 b :: t) =
        0x25 :: a :: b :: utf8Encode t := by
      rw [utf8Encode_cons, utf8Encode_cons, utf8Encode_cons, (ofUInt8_ascii ha).2,
        (ofUInt8_ascii hb).2]
      rfl
    rw [hencode, symbolsOfBytes_escape hbyte, symbols_escape hbyte, ih]
  | single c t hc ih =>
    rw [utf8Encode_cons, symbols_single hc]
    cases hascii : asciiChar c with
    | true =>
      obtain ⟨x, hx, rfl⟩ := exists_ofUInt8 hascii
      have hsingle : SingleByte x (utf8Encode t) := by
        rintro rfl a b r hr
        rw [Option.eq_none_iff_forall_ne_some]
        intro byte hbyte
        obtain ⟨ha, hb⟩ := asciiByte_of_hexByteOf hbyte
        have htext : t = Char.ofUInt8 a :: Char.ofUInt8 b :: utf8Decode r := by
          rw [← utf8Decode_utf8Encode t, hr, utf8Decode_ascii ha, utf8Decode_ascii hb]
        have hnone : hexByteOf a b = none := hc rfl _ _ _ htext
        rw [hnone] at hbyte
        cases hbyte
      rw [(ofUInt8_ascii hx).2, List.singleton_append, symbolsOfBytes_single hsingle,
        symbolOf_ascii hx, ih]
      rfl
    | false => rw [symbolsOfBytes_high (utf8EncodeChar_high hascii), symbolsOf_high hascii, ih]

end Url

end Cream.Library
