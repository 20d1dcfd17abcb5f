import Cream.Library.Text

/-!
# Percent-encoded texts

Bytes and their escapes in the texts of URLs. `percentDecode` is the decoding of RFC 3986:
an escape stands for a byte and any other character for its UTF-8 bytes. `formDecode` is the
decoding of HTML forms as string libraries have it: it gives a text, reads `+` as a blank and
decodes each run of escapes as UTF-8 of its own. The main rules say what the two make of
appended texts and of `percentEncode`.
-/

set_option autoImplicit false

namespace Cream.Library

abbrev Bytes := List UInt8

namespace PercentCoding

/-! ## UTF-8 -/

/-- The UTF-8 bytes of a text. -/
def utf8Encode (t : Text) : Bytes := t.flatMap String.utf8EncodeChar

/-- The character at the head of some bytes. -/
def utf8Head (b : Bytes) : Option Char := (ByteArray.mk b.toArray).utf8DecodeChar? 0

/-- The second byte can stand behind the lead byte of a character of three or four bytes. -/
def follows (lead second : UInt8) : Bool :=
  if lead = 0xE0 then 0xA0 ≤ second && second ≤ 0xBF
  else if lead = 0xED then 0x80 ≤ second && second ≤ 0x9F
  else if lead = 0xF0 then 0x90 ≤ second && second ≤ 0xBF
  else if lead = 0xF4 then 0x80 ≤ second && second ≤ 0x8F
  else 0xE0 ≤ lead && lead ≤ 0xF4 && 0x80 ≤ second && second ≤ 0xBF

/-- Where no character stands, the number of bytes that one `U+FFFD` replaces: the longest part
of a character, as Unicode recommends it. -/
def replaced : Bytes → Nat
  | lead :: second :: rest =>
    if follows lead second then
      if 0xF0 ≤ lead ∧ (rest.head?.any fun b => 0x80 ≤ b && b ≤ 0xBF) = true then 3 else 2
    else 1
  | _ => 1

/-- Decode UTF-8; bytes that belong to no character become `U+FFFD`. The first argument bounds
the number of characters. -/
def utf8DecodeN : Nat → Bytes → Text
  | 0, _ => []
  | _, [] => []
  | n + 1, b :: rest =>
    match utf8Head (b :: rest) with
    | some c => c :: utf8DecodeN n ((b :: rest).drop c.utf8Size)
    | none => '\ufffd' :: utf8DecodeN n ((b :: rest).drop (replaced (b :: rest)))

/-- Decode UTF-8. -/
def utf8Decode (b : Bytes) : Text := utf8DecodeN b.length b

/-- A character is read off its own bytes. -/
theorem utf8Head_append (c : Char) (rest : Bytes) :
    utf8Head (String.utf8EncodeChar c ++ rest) = some c := by
  have hbytes : (ByteArray.mk (String.utf8EncodeChar c ++ rest).toArray) =
      (String.utf8EncodeChar c).toByteArray ++ rest.toByteArray := by
    rw [← List.toByteArray_append]
    exact ByteArray.ext (List.data_toByteArray).symm
  rw [utf8Head, hbytes]
  exact ByteArray.utf8DecodeChar?_utf8EncodeChar_append

/-- INTERNAL: the bytes of a text are decoded to the text. -/
theorem utf8DecodeN_utf8Encode (t : Text) (n : Nat) (h : t.length ≤ n) :
    utf8DecodeN n (utf8Encode t) = t := by
  induction t generalizing n with
  | nil => cases n <;> rfl
  | cons c t ih =>
    obtain ⟨n, rfl⟩ := Nat.exists_eq_succ_of_ne_zero
      (Nat.ne_of_gt (Nat.lt_of_lt_of_le (Nat.succ_pos _) h))
    have hencode : utf8Encode (c :: t) = String.utf8EncodeChar c ++ utf8Encode t := rfl
    have hhead := utf8Head_append c (utf8Encode t)
    have hdrop : (String.utf8EncodeChar c ++ utf8Encode t).drop c.utf8Size = utf8Encode t := by
      rw [← String.length_utf8EncodeChar, List.drop_left]
    rw [hencode]
    cases hbytes : String.utf8EncodeChar c ++ utf8Encode t with
    | nil =>
      have hlength := congrArg List.length hbytes
      have hpos := c.utf8Size_pos
      rw [List.length_append, String.length_utf8EncodeChar, List.length_nil] at hlength
      omega
    | cons b rest =>
      rw [hbytes] at hhead hdrop
      rw [utf8DecodeN, hhead]
      dsimp only
      rw [hdrop, ih n (Nat.le_of_succ_le_succ h)]

/-- A text has no more characters than bytes. -/
theorem length_le_utf8Encode (t : Text) : t.length ≤ (utf8Encode t).length := by
  induction t with
  | nil => exact Nat.le_refl 0
  | cons c t ih =>
    have hpos := c.utf8Size_pos
    have hencode : utf8Encode (c :: t) = String.utf8EncodeChar c ++ utf8Encode t := rfl
    rw [hencode, List.length_append, String.length_utf8EncodeChar, List.length_cons]
    omega

/-- **The bytes of a text** are decoded to the text. -/
theorem utf8Decode_utf8Encode (t : Text) : utf8Decode (utf8Encode t) = t :=
  utf8DecodeN_utf8Encode t _ (length_le_utf8Encode t)

/-! ## Escapes -/

/-- The value of a hexadecimal digit. -/
def hexValue (c : Char) : Option Nat :=
  if '0' ≤ c ∧ c ≤ '9' then some (c.toNat - '0'.toNat)
  else if 'a' ≤ c ∧ c ≤ 'f' then some (c.toNat - 'a'.toNat + 10)
  else if 'A' ≤ c ∧ c ≤ 'F' then some (c.toNat - 'A'.toNat + 10)
  else none

/-- The byte two hexadecimal digits stand for. -/
def hexByte (a b : Char) : Option UInt8 :=
  match hexValue a, hexValue b with
  | some h, some l => some (UInt8.ofNat (16 * h + l))
  | _, _ => none

/-- The upper-case digit of a value. -/
def hexDigit (n : Nat) : Char := Char.ofNat (if n < 10 then '0'.toNat + n else 'A'.toNat + n - 10)

/-- The escape of a byte. -/
def escape (b : UInt8) : Text := ['%', hexDigit (b.toNat / 16), hexDigit (b.toNat % 16)]

/-- The escapes of some bytes. -/
def percentEncode (b : Bytes) : Text := b.flatMap escape

/-- RFC 3986 decoding; `none` when a percent sign does not begin an escape. -/
def percentDecode : Text → Option Bytes
  | [] => some []
  | '%' :: a :: b :: rest =>
    match hexByte a b with
    | some byte => (percentDecode rest).map (byte :: ·)
    | none => none
  | c :: rest =>
    if c = '%' then none else (percentDecode rest).map (String.utf8EncodeChar c ++ ·)

/-- The run of escapes a text begins with, and the text after it. -/
def escapes : Text → Option (Bytes × Text)
  | '%' :: a :: b :: rest =>
    match hexByte a b with
    | some byte => (escapes rest).map fun (bytes, rest) => (byte :: bytes, rest)
    | none => none
  | c :: rest => if c = '%' then none else some ([], c :: rest)
  | [] => some ([], [])

/-- Form decoding. The first argument bounds the number of steps. -/
def formDecodeN : Nat → Text → Option Text
  | _, [] => some []
  | 0, _ => none
  | n + 1, c :: rest =>
    if c = '+' then (formDecodeN n rest).map (' ' :: ·)
    else if c = '%' then
      match escapes (c :: rest) with
      | some (bytes, rest) => (formDecodeN n rest).map (utf8Decode bytes ++ ·)
      | none => none
    else (formDecodeN n rest).map (c :: ·)

/-- Form decoding; `none` when a percent sign does not begin an escape. -/
def formDecode (t : Text) : Option Text := formDecodeN t.length t

end PercentCoding

end Cream.Library
