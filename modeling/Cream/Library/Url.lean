import Cream.Library.Utf8Decoding
import Mathlib

/-!
# URLs on the wire

What becomes of a text that is pasted into a URL. The URL is cut at the number sign and at
the question mark and loses its dot segments (`removeDots`); the connection then writes each
character as it is, or escapes it where it is not legal (`wire`; which characters it escapes
is a parameter, since implementations differ). `wellFormed` is the grammar of a request
target. The main rules: what a target decodes to (`percentDecode_wire`), when it is well
formed (`wellFormed_wire`), and that nothing a URL does to a path gives it more ASCII characters
(`countP_octets_le`, `weight_walk`), or as many unless it does nothing.
-/

set_option autoImplicit false

namespace Cream.Library

open PercentCoding

namespace Url

/-! ## Characters -/

/-- The characters RFC 3986 allows everywhere in a path segment without an escape. -/
def segmentChar (c : Char) : Bool :=
  c.isAlphanum || "-._~!$&'()*+,;=:@".toList.contains c

/-- The characters of an absolute path. -/
def pathChar (c : Char) : Bool := segmentChar c || c = '/'

/-- The characters of a query. -/
def queryChar (c : Char) : Bool := segmentChar c || c = '/' || c = '?'

/-- Escapes and legal characters only. -/
def wellFormed (legal : Char → Bool) : Text → Bool
  | [] => true
  | '%' :: a :: b :: rest => (hexByte a b).isSome && wellFormed legal rest
  | c :: rest => legal c && wellFormed legal rest

/-- The characters that are no part of an escape. -/
def loose : Text → Text
  | [] => []
  | '%' :: a :: b :: rest =>
    if (hexByte a b).isSome then loose rest else '%' :: loose (a :: b :: rest)
  | c :: rest => c :: loose rest

/-- The bytes a text stands for; a percent sign that begins no escape stands for itself. -/
def octets : Text → Bytes
  | [] => []
  | '%' :: a :: b :: rest =>
    match hexByte a b with
    | some byte => byte :: octets rest
    | none => 0x25 :: octets (a :: b :: rest)
  | c :: rest => String.utf8EncodeChar c ++ octets rest

/-- How a connection writes one character. -/
def wireChar (legal escapes : Char → Bool) (c : Char) : Text :=
  if legal c then [c] else if escapes c then percentEncode (String.utf8EncodeChar c) else [c]

/-- How a connection writes a text: escapes stay. -/
def wire (legal escapes : Char → Bool) : Text → Text
  | [] => []
  | '%' :: a :: b :: rest =>
    if (hexByte a b).isSome then '%' :: a :: b :: wire legal escapes rest
    else wireChar legal escapes '%' ++ wire legal escapes (a :: b :: rest)
  | c :: rest => wireChar legal escapes c ++ wire legal escapes rest

/-! ## Queries -/

/-- A query, read character by character. -/
inductive Symbol where
  | ampersand
  | equals
  | byte (b : UInt8)
deriving DecidableEq, Repr

/-- The symbols of a query. -/
def symbols : Text → List Symbol
  | [] => []
  | '%' :: a :: b :: rest =>
    match hexByte a b with
    | some byte => .byte byte :: symbols rest
    | none => .byte 0x25 :: symbols (a :: b :: rest)
  | '&' :: rest => .ampersand :: symbols rest
  | '=' :: rest => .equals :: symbols rest
  | '+' :: rest => .byte 0x20 :: symbols rest
  | c :: rest => (String.utf8EncodeChar c).map .byte ++ symbols rest

/-- The symbols between the ampersands. -/
def groups : List Symbol → List (List Symbol)
  | [] => [[]]
  | .ampersand :: rest => [] :: groups rest
  | symbol :: rest =>
    match groups rest with
    | [] => [[symbol]]
    | g :: gs => (symbol :: g) :: gs

/-- The sequence of the parameters of a query. -/
def params (query : Text) : List (List Symbol) :=
  (groups (symbols query)).filter fun g => !g.isEmpty

/-! ## Dot segments -/

/-- The removal of dot segments: the segments kept so far, the last one first, and the
segments still to come. -/
def walk (kept : List Text) : List Text → List Text
  | [] => kept.reverse
  | [s] =>
    if s = ['.'] then ([] :: kept).reverse
    else if s = ['.', '.'] then ([] :: kept.tail).reverse
    else (s :: kept).reverse
  | s :: rest =>
    if s = ['.'] then walk kept rest
    else if s = ['.', '.'] then walk kept.tail rest
    else walk (s :: kept) rest

/-- The segments of a path behind its first slash. -/
def segments (path : Text) : List Text := (path.drop 1).splitOn '/'

/-- An absolute path without its dot segments. -/
def removeDots (path : Text) : Text := '/' :: List.intercalate ['/'] (walk [] (segments path))

/-! ## Reading a text -/

variable {legal escapes : Char → Bool} {t rest : Text} {c : Char}

/-- The character does not begin an escape. -/
def Single (c : Char) (rest : Text) : Prop :=
  c = '%' → ∀ a b rest', rest = a :: b :: rest' → hexByte a b = none

/-- A text is read by escapes and single characters. -/
theorem read_induction {motive : Text → Prop} (nil : motive [])
    (escape : ∀ a b byte rest, hexByte a b = some byte → motive rest →
      motive ('%' :: a :: b :: rest))
    (single : ∀ c rest, Single c rest → motive rest → motive (c :: rest)) (t : Text) :
    motive t := by
  induction h : t.length using Nat.strong_induction_on generalizing t with
  | _ n ih =>
    match t with
    | [] => exact nil
    | c :: rest =>
      have hrest : motive rest := ih rest.length (by simp [← h]) rest rfl
      by_cases hc : c = '%'
      · match rest, hrest with
        | [], hrest => exact single c [] (fun _ a b r hr => nomatch hr) hrest
        | [a], hrest => exact single c [a] (fun _ a b r hr => nomatch hr) hrest
        | a :: b :: rest', hrest =>
          cases hbyte : hexByte a b with
          | some byte =>
            subst hc
            exact escape a b byte rest' hbyte (ih rest'.length (by simp [← h]; omega) rest' rfl)
          | none =>
            refine single c (a :: b :: rest') (fun _ a' b' r hr => ?_) hrest
            cases hr
            exact hbyte
      · exact single c rest (fun h => absurd h hc) hrest

/-- The octets of a character that begins no escape. -/
theorem octets_single (h : Single c rest) :
    octets (c :: rest) = String.utf8EncodeChar c ++ octets rest := by
  by_cases hc : c = '%'
  · subst hc
    rcases rest with _ | ⟨a, _ | ⟨b, r⟩⟩
    · rfl
    · rfl
    · rw [octets, h rfl a b r rfl]
      rfl
  · rw [octets]
    exact fun a b r hc' => absurd hc' hc

/-- It is no part of an escape. -/
theorem loose_single (h : Single c rest) : loose (c :: rest) = c :: loose rest := by
  by_cases hc : c = '%'
  · subst hc
    rcases rest with _ | ⟨a, _ | ⟨b, r⟩⟩
    · rfl
    · rfl
    · rw [loose, h rfl a b r rfl]
      rfl
  · rw [loose]
    exact fun a b r hc' => absurd hc' hc

/-- It is written on its own. -/
theorem wire_single (h : Single c rest) :
    wire legal escapes (c :: rest) = wireChar legal escapes c ++ wire legal escapes rest := by
  by_cases hc : c = '%'
  · subst hc
    rcases rest with _ | ⟨a, _ | ⟨b, r⟩⟩
    · rfl
    · rfl
    · rw [wire, h rfl a b r rfl]
      rfl
  · rw [wire]
    exact fun a b r hc' => absurd hc' hc

/-- It has to be legal. -/
theorem wellFormed_single (h : Single c rest) (hpercent : legal '%' = false) :
    wellFormed legal (c :: rest) = (legal c && wellFormed legal rest) := by
  by_cases hc : c = '%'
  · subst hc
    rcases rest with _ | ⟨a, _ | ⟨b, r⟩⟩
    · rfl
    · rfl
    · rw [wellFormed, h rfl a b r rfl, hpercent]
      rfl
  · rw [wellFormed]
    exact fun a b r hc' => absurd hc' hc

/-- The symbols of a single character. -/
def symbolsOf (c : Char) : List Symbol :=
  if c = '&' then [.ampersand]
  else if c = '=' then [.equals]
  else if c = '+' then [.byte 0x20]
  else (String.utf8EncodeChar c).map .byte

/-- It is a symbol on its own. -/
theorem symbols_single (h : Single c rest) :
    symbols (c :: rest) = symbolsOf c ++ symbols rest := by
  by_cases hc : c = '%'
  · subst hc
    rcases rest with _ | ⟨a, _ | ⟨b, r⟩⟩
    · rfl
    · rfl
    · rw [symbols, h rfl a b r rfl]
      rfl
  · unfold symbolsOf
    split
    · next heq => rw [heq, symbols]; rfl
    split
    · next heq => rw [heq, symbols]; rfl
    split
    · next heq => rw [heq, symbols]; rfl
    next hamp heq hplus =>
      rw [symbols]
      · exact fun a b r hc' => absurd hc' hc
      · exact hamp
      · exact heq
      · exact hplus

/-- It is decoded to its own bytes, unless it is a percent sign. -/
theorem percentDecode_single (h : Single c rest) : percentDecode (c :: rest) =
    if c = '%' then none else (percentDecode rest).map (String.utf8EncodeChar c ++ ·) := by
  by_cases hc : c = '%'
  · subst hc
    rcases rest with _ | ⟨a, _ | ⟨b, r⟩⟩
    · rfl
    · rfl
    · rw [percentDecode, h rfl a b r rfl]
      rfl
  · rw [percentDecode]
    exact fun a b r hc' => absurd hc' hc

/-- The octet of an escape. -/
theorem octets_escape {a b : Char} {byte : UInt8} (h : hexByte a b = some byte) :
    octets ('%' :: a :: b :: rest) = byte :: octets rest := by
  rw [octets, h]

/-- The symbol of an escape. -/
theorem symbols_escape {a b : Char} {byte : UInt8} (h : hexByte a b = some byte) :
    symbols ('%' :: a :: b :: rest) = .byte byte :: symbols rest := by
  rw [symbols, h]

/-- An escape is decoded to its byte. -/
theorem percentDecode_escape {a b : Char} {byte : UInt8} (h : hexByte a b = some byte) :
    percentDecode ('%' :: a :: b :: rest) = (percentDecode rest).map (byte :: ·) := by
  rw [percentDecode, h]

/-- It is written as it is. -/
theorem wire_escape {a b : Char} {byte : UInt8} (h : hexByte a b = some byte) :
    wire legal escapes ('%' :: a :: b :: rest) = '%' :: a :: b :: wire legal escapes rest := by
  rw [wire, h]
  rfl

/-- It is well formed. -/
theorem wellFormed_escape {a b : Char} {byte : UInt8} (h : hexByte a b = some byte) :
    wellFormed legal ('%' :: a :: b :: rest) = wellFormed legal rest := by
  rw [wellFormed, h]
  rfl

/-- Its characters are part of it. -/
theorem loose_escape {a b : Char} {byte : UInt8} (h : hexByte a b = some byte) :
    loose ('%' :: a :: b :: rest) = loose rest := by
  rw [loose, h]
  rfl

/-! ## Escaping -/

/-- A hexadecimal digit has its value. -/
theorem hexValue_hexDigit : ∀ n < 16, hexValue (hexDigit n) = some n := by decide

/-- An escape is read as its byte. -/
theorem hexByte_hexDigit (b : UInt8) :
    hexByte (hexDigit (b.toNat / 16)) (hexDigit (b.toNat % 16)) = some b := by
  have hb := b.toNat_lt
  rw [hexByte, hexValue_hexDigit _ (by omega), hexValue_hexDigit _ (by omega)]
  show some (UInt8.ofNat (16 * (b.toNat / 16) + b.toNat % 16)) = some b
  rw [Nat.div_add_mod, UInt8.ofNat_toNat]

/-- What is read behind the escapes of some bytes. -/
theorem percentDecode_percentEncode (bytes : Bytes) :
    percentDecode (percentEncode bytes ++ t) = (percentDecode t).map (bytes ++ ·) := by
  induction bytes with
  | nil =>
    show percentDecode t = (percentDecode t).map fun b => b
    rw [Option.map_id']
  | cons b bytes ih =>
    show percentDecode ('%' :: _ :: _ :: (percentEncode bytes ++ t)) = _
    rw [percentDecode_escape (hexByte_hexDigit b), ih, Option.map_map]
    rfl

/-- Escaped bytes are well formed. -/
theorem wellFormed_percentEncode (bytes : Bytes) :
    wellFormed legal (percentEncode bytes ++ t) = wellFormed legal t := by
  induction bytes with
  | nil => rfl
  | cons b bytes ih =>
    show wellFormed legal ('%' :: _ :: _ :: (percentEncode bytes ++ t)) = _
    rw [wellFormed_escape (hexByte_hexDigit b), ih]

/-- Each is one symbol. -/
theorem symbols_percentEncode (bytes : Bytes) :
    symbols (percentEncode bytes ++ t) = bytes.map .byte ++ symbols t := by
  induction bytes with
  | nil => rfl
  | cons b bytes ih =>
    show symbols ('%' :: _ :: _ :: (percentEncode bytes ++ t)) = _
    rw [symbols_escape (hexByte_hexDigit b), ih]
    rfl

/-- Every character has bytes. -/
theorem utf8EncodeChar_ne_nil (c : Char) : String.utf8EncodeChar c ≠ [] := by
  rw [Ne, ← List.length_eq_zero_iff, String.length_utf8EncodeChar]
  exact Nat.ne_of_gt c.utf8Size_pos

/-- What is written for a text begins with its first character or with an escape. -/
theorem wire_cons (h : Single c rest) : (∃ x, wire legal escapes (c :: rest) = '%' :: x) ∨
    wire legal escapes (c :: rest) = c :: wire legal escapes rest := by
  rw [wire_single h]
  unfold wireChar
  split
  · exact .inr rfl
  split
  · left
    cases hb : String.utf8EncodeChar c with
    | nil => exact absurd hb (utf8EncodeChar_ne_nil c)
    | cons b bytes => exact ⟨_, rfl⟩
  · exact .inr rfl

/-- A percent sign is no first digit. -/
theorem hexByte_percent_left (b : Char) : hexByte '%' b = none := rfl

/-- Nor is it a second one. -/
theorem hexByte_percent_right (a : Char) : hexByte a '%' = none := by
  unfold hexByte
  cases hexValue a <;> rfl

/-- A percent sign that begins no escape begins none when the text is written. -/
theorem Single.wire (h : Single c rest) : Single c (wire legal escapes rest) := by
  rintro rfl a b r hr
  -- the characters behind it are the ones of the text, or begin an escape of their own
  cases rest using read_induction with
  | nil => cases hr
  | escape a' b' byte rest' hbyte _ =>
    rw [wire_escape hbyte] at hr
    cases hr
    exact hexByte_percent_left _
  | single a' rest' hsingle _ =>
    rcases (wire_cons hsingle : (∃ x, Url.wire legal escapes _ = _) ∨ _) with ⟨x, hx⟩ | hx
    · rw [hx] at hr
      cases hr
      exact hexByte_percent_left _
    · rw [hx, List.cons.injEq] at hr
      obtain ⟨rfl, hr⟩ := hr
      cases rest' using read_induction with
      | nil => cases hr
      | escape a'' b'' byte rest'' hbyte _ =>
        rw [wire_escape hbyte] at hr
        cases hr
        exact hexByte_percent_right _
      | single b' rest'' hsingle' _ =>
        rcases (wire_cons hsingle' : (∃ x, Url.wire legal escapes _ = _) ∨ _) with ⟨x, hx⟩ | hx
        · rw [hx] at hr
          cases hr
          exact hexByte_percent_right _
        · rw [hx, List.cons.injEq] at hr
          obtain ⟨rfl, -⟩ := hr
          exact h rfl _ _ _ rfl

/-! ## What is written -/

/-- Every character outside the escapes is legal or will be escaped. -/
def Writable (legal escapes : Char → Bool) (t : Text) : Prop :=
  ∀ c ∈ loose t, legal c = true ∨ escapes c = true

instance (legal escapes : Char → Bool) (t : Text) : Decidable (Writable legal escapes t) :=
  List.decidableBAll (fun c => legal c = true ∨ escapes c = true) (loose t)

/-- **What is written is well formed** exactly when every character is legal or escaped. -/
theorem wellFormed_wire (hpercent : legal '%' = false) :
    wellFormed legal (wire legal escapes t) = true ↔ Writable legal escapes t := by
  unfold Writable
  induction t using read_induction with
  | nil => exact ⟨fun _ c hc => (List.not_mem_nil hc).elim, fun _ => rfl⟩
  | escape a b byte rest hbyte ih => rw [wire_escape hbyte, wellFormed_escape hbyte,
      loose_escape hbyte, ih]
  | single c rest h ih =>
    rw [wire_single h, loose_single h, List.forall_mem_cons, ← ih]
    unfold wireChar
    split
    · next hc =>
      rw [List.singleton_append, wellFormed_single h.wire hpercent, hc, Bool.true_and]
      exact ⟨fun hrest => ⟨.inl rfl, hrest⟩, fun hall => hall.2⟩
    split
    · next hc => rw [wellFormed_percentEncode]; exact ⟨fun hrest => ⟨.inr hc, hrest⟩, fun hall => hall.2⟩
    · next hlegal hescapes =>
      rw [List.singleton_append, wellFormed_single h.wire hpercent]
      simp [hlegal, hescapes]

/-- **What is written decodes** to the bytes the text stands for. -/
theorem percentDecode_wire (hpercent : legal '%' = false) (h : Writable legal escapes t) :
    percentDecode (wire legal escapes t) = some (octets t) := by
  unfold Writable at h
  induction t using read_induction with
  | nil => rfl
  | escape a b byte rest hbyte ih =>
    rw [loose_escape hbyte] at h
    rw [wire_escape hbyte, percentDecode_escape hbyte, octets_escape hbyte, ih h]
    rfl
  | single c rest hc ih =>
    rw [loose_single hc, List.forall_mem_cons] at h
    rw [wire_single hc, octets_single hc]
    unfold wireChar
    split
    · next hlegal =>
      have hne : c ≠ '%' := by
        rintro rfl
        rw [hpercent] at hlegal
        cases hlegal
      rw [List.singleton_append, percentDecode_single hc.wire, if_neg hne, ih h.2]
      rfl
    · next hlegal =>
      rw [if_pos (h.1.resolve_left hlegal), percentDecode_percentEncode, ih h.2]
      rfl

/-- The parameters of a query are written as they are. -/
theorem symbols_wire (hamp : legal '&' = true) (heq : legal '=' = true)
    (hplus : legal '+' = true) (h : Writable legal escapes t) :
    symbols (wire legal escapes t) = symbols t := by
  unfold Writable at h
  induction t using read_induction with
  | nil => rfl
  | escape a b byte rest hbyte ih =>
    rw [loose_escape hbyte] at h
    rw [wire_escape hbyte, symbols_escape hbyte, symbols_escape hbyte, ih h]
  | single c rest hc ih =>
    rw [loose_single hc, List.forall_mem_cons] at h
    rw [wire_single hc, symbols_single hc]
    unfold wireChar
    split
    · rw [List.singleton_append, symbols_single hc.wire, ih h.2]
    · next hlegal =>
      rw [if_pos (h.1.resolve_left hlegal), symbols_percentEncode, ih h.2]
      unfold symbolsOf
      rw [if_neg, if_neg, if_neg]
      · rintro rfl
        exact hlegal hplus
      · rintro rfl
        exact hlegal heq
      · rintro rfl
        exact hlegal hamp

/-- A text without escapes. -/
def EscapeFree (t : Text) : Prop :=
  ∀ x a b y, t = x ++ '%' :: a :: b :: y → hexByte a b = none

/-- A character that begins no escape may stand before any text. -/
theorem escapeFree_single (h : Single c rest) : EscapeFree (c :: rest) ↔ EscapeFree rest := by
  constructor
  · intro hfree x a b y hx
    exact hfree (c :: x) a b y (by rw [hx]; rfl)
  · intro hfree x a b y hx
    cases x with
    | nil =>
      rw [List.nil_append, List.cons.injEq] at hx
      exact h hx.1 a b y hx.2
    | cons d x =>
      rw [List.cons_append, List.cons.injEq] at hx
      exact hfree x a b y hx.2

/-- A text with an escape is not without them. -/
theorem not_escapeFree_escape {a b : Char} {byte : UInt8} (h : hexByte a b = some byte) :
    ¬EscapeFree ('%' :: a :: b :: rest) := by
  intro hfree
  have hnone := hfree [] a b rest rfl
  rw [h] at hnone
  cases hnone

/-- The bytes of one character more. -/
theorem utf8Encode_cons : utf8Encode (c :: t) = String.utf8EncodeChar c ++ utf8Encode t := rfl

/-- Without escapes a text stands for its UTF-8 bytes. -/
theorem octets_of_escapeFree (h : EscapeFree t) : octets t = utf8Encode t ∧ loose t = t := by
  induction t using read_induction with
  | nil => exact ⟨rfl, rfl⟩
  | escape a b byte rest hbyte ih => exact absurd h (not_escapeFree_escape hbyte)
  | single c rest hc ih =>
    obtain ⟨hoctets, hloose⟩ := ih ((escapeFree_single hc).mp h)
    rw [octets_single hc, loose_single hc, utf8Encode_cons, hoctets, hloose]
    exact ⟨rfl, rfl⟩

/-- Hexadecimal digits are ASCII. -/
theorem asciiChar_of_hexValue {n : Nat} (h : hexValue c = some n) : asciiChar c = true := by
  have hle : ∀ d : Char, d.toNat < 128 → c ≤ d → asciiChar c = true := fun d hd hcd =>
    decide_eq_true (lt_of_le_of_lt (UInt32.le_iff_toNat_le.mp hcd) hd)
  unfold hexValue at h
  split at h
  · next hc => exact hle '9' (by decide) hc.2
  split at h
  · next hc => exact hle 'f' (by decide) hc.2
  split at h
  · next hc => exact hle 'F' (by decide) hc.2
  · cases h

/-- The digits of an escape are ASCII. -/
theorem asciiChar_of_hexByte {d e : Char} {byte : UInt8} (h : hexByte d e = some byte) :
    asciiChar d = true ∧ asciiChar e = true := by
  unfold hexByte at h
  cases hd : hexValue d with
  | none =>
    rw [hd] at h
    cases h
  | some m =>
    cases he : hexValue e with
    | none =>
      rw [hd, he] at h
      cases h
    | some n => exact ⟨asciiChar_of_hexValue hd, asciiChar_of_hexValue he⟩

/-- **An escape makes a text stand for fewer ASCII bytes** than it is written with. -/
theorem countP_octets_le : (octets t).countP asciiByte ≤ t.countP asciiChar ∧
    (¬EscapeFree t → (octets t).countP asciiByte < t.countP asciiChar) := by
  induction t using read_induction with
  | nil =>
    refine ⟨le_rfl, fun h => absurd (fun x a b y hx => ?_) h⟩
    cases x <;> cases hx
  | escape a b byte rest hbyte ih =>
    obtain ⟨ha, hb⟩ := asciiChar_of_hexByte hbyte
    have hone : (if asciiByte byte = true then 1 else 0) ≤ 1 := by
      split <;> decide
    have hless : (octets ('%' :: a :: b :: rest)).countP asciiByte <
        ('%' :: a :: b :: rest).countP asciiChar := by
      have hle := ih.1
      rw [octets_escape hbyte, List.countP_cons, List.countP_cons_of_pos (by decide),
        List.countP_cons_of_pos ha, List.countP_cons_of_pos hb]
      omega
    exact ⟨hless.le, fun _ => hless⟩
  | single c rest hc ih =>
    rw [octets_single hc, List.countP_append, List.countP_cons, countP_utf8EncodeChar,
      escapeFree_single hc, Nat.add_comm]
    exact ⟨Nat.add_le_add_right ih.1 _, fun h => Nat.add_lt_add_right (ih.2 h) _⟩

/-! ## Parameters -/

/-- No symbol gets lost when a query is read as parameters. -/
theorem flatten_groups (l : List Symbol) : (groups l).flatten = l.filter (· ≠ .ampersand) := by
  induction l with
  | nil => rfl
  | cons symbol rest ih =>
    cases symbol with
    | ampersand =>
      rw [groups, List.flatten_cons, ih]
      rfl
    | equals | byte b =>
      rw [groups]
      · cases hg : groups rest with
        | nil =>
          rw [hg] at ih
          rw [List.filter_cons_of_pos (by simp), ← ih]
          rfl
        | cons g gs =>
          rw [hg] at ih
          rw [List.filter_cons_of_pos (by simp), ← ih]
          rfl
      · nofun

/-- A character that is no digit of an escape splits the reading of a query. -/
theorem symbols_append (hc : hexValue c = none) (p r : Text) :
    symbols (p ++ c :: r) = symbols p ++ symbols (c :: r) := by
  induction p using read_induction with
  | nil => rfl
  | escape a b byte rest hbyte ih =>
    simp only [List.cons_append]
    rw [symbols_escape hbyte, symbols_escape hbyte, ih]
    rfl
  | single d rest h ih =>
    have hsingle : Single d (rest ++ c :: r) := by
      rintro rfl a b r' hr
      rcases rest with _ | ⟨a', _ | ⟨b', rest⟩⟩
      · cases hr
        unfold hexByte
        rw [hc]
      · cases hr
        unfold hexByte
        rw [hc]
        cases hexValue a <;> rfl
      · cases hr
        exact h rfl a b rest rfl
    rw [List.cons_append, symbols_single hsingle, symbols_single h, ih, List.append_assoc]

/-! ## Dot segments -/

/-- A path with a segment `.` or `..`. -/
def HasDots (path : Text) : Prop := ∃ s ∈ segments path, s = ['.'] ∨ s = ['.', '.']

instance (path : Text) : Decidable (HasDots path) :=
  inferInstanceAs (Decidable (∃ s ∈ segments path, _))

/-- The ASCII characters of some segments, each with its slash. -/
def weight (segs : List Text) : Nat := (segs.map fun s => s.countP asciiChar + 1).sum

/-- The weight of one segment more. -/
theorem weight_cons (s : Text) (segs : List Text) :
    weight (s :: segs) = s.countP asciiChar + 1 + weight segs := by
  rw [weight, List.map_cons, List.sum_cons, weight]

/-- The weight does not depend on the order. -/
theorem weight_reverse (segs : List Text) : weight segs.reverse = weight segs := by
  rw [weight, List.map_reverse, List.sum_reverse, weight]

/-- Without its first segment a path weighs no more. -/
theorem weight_tail_le (segs : List Text) : weight segs.tail ≤ weight segs := by
  cases segs with
  | nil => exact le_rfl
  | cons s segs =>
    rw [weight_cons, List.tail_cons]
    exact Nat.le_add_left _ _

/-- **A walk over segments** never makes them heavier, and makes them lighter when a dot
segment is among them. -/
theorem weight_walk (kept segs : List Text) :
    weight (walk kept segs) ≤ weight kept + weight segs ∧
      ((∃ s ∈ segs, s = ['.'] ∨ s = ['.', '.']) →
        weight (walk kept segs) < weight kept + weight segs) := by
  have hdot : ['.'].countP asciiChar = 1 := by decide
  have hdots : ['.', '.'].countP asciiChar = 2 := by decide
  have hnil : ([] : Text).countP asciiChar = 0 := rfl
  fun_induction walk kept segs with
  | case1 kept =>
    rw [weight_reverse]
    exact ⟨Nat.le_add_right _ _, fun ⟨s, hs, _⟩ => (List.not_mem_nil hs).elim⟩
  | case2 kept =>
    rw [weight_reverse, weight_cons, weight_cons, hdot, hnil]
    exact ⟨by omega, fun _ => by omega⟩
  | case3 kept hne =>
    have htail := weight_tail_le kept
    rw [weight_reverse, weight_cons, weight_cons, hdots, hnil]
    exact ⟨by omega, fun _ => by omega⟩
  | case4 kept s hne hne' =>
    rw [weight_reverse, weight_cons, weight_cons]
    refine ⟨le_of_eq (Nat.add_comm _ _), fun ⟨s', hs', h⟩ => ?_⟩
    obtain rfl := List.mem_singleton.mp hs'
    rcases h with h | h
    · exact absurd h hne
    · exact absurd h hne'
  | case5 kept rest hrest ih =>
    rw [weight_cons, hdot]
    exact ⟨by omega, fun _ => by omega⟩
  | case6 kept rest hrest hne ih =>
    have htail := weight_tail_le kept
    rw [weight_cons, hdots]
    exact ⟨by omega, fun _ => by omega⟩
  | case7 kept s rest hrest hne hne' ih =>
    rw [weight_cons] at ih ⊢
    refine ⟨by omega, fun ⟨s', hs', h⟩ => ?_⟩
    rcases List.mem_cons.mp hs' with rfl | hs'
    · rcases h with h | h
      · exact absurd h hne
      · exact absurd h hne'
    · have hless := ih.2 ⟨s', hs', h⟩
      omega

/-- Without dot segments everything is kept. -/
theorem walk_of_no_dots (kept segs : List Text)
    (h : ¬∃ s ∈ segs, s = ['.'] ∨ s = ['.', '.']) : walk kept segs = kept.reverse ++ segs := by
  have hall : ∀ s ∈ segs, s ≠ ['.'] ∧ s ≠ ['.', '.'] := fun s hs =>
    ⟨fun hdot => h ⟨s, hs, .inl hdot⟩, fun hdot => h ⟨s, hs, .inr hdot⟩⟩
  fun_induction walk kept segs with
  | case1 kept => rw [List.append_nil]
  | case2 kept => exact absurd rfl (hall ['.'] (List.mem_singleton_self _)).1
  | case3 kept hne => exact absurd rfl (hall ['.', '.'] (List.mem_singleton_self _)).2
  | case4 kept s hne hne' => rw [List.reverse_cons]
  | case5 kept rest hrest ih => exact absurd rfl (hall ['.'] List.mem_cons_self).1
  | case6 kept rest hrest hne ih => exact absurd rfl (hall ['.', '.'] List.mem_cons_self).2
  | case7 kept s rest hrest hne hne' ih =>
    have hrest' : ∀ s ∈ rest, s ≠ ['.'] ∧ s ≠ ['.', '.'] := fun s hs =>
      hall s (List.mem_cons_of_mem _ hs)
    rw [ih (fun ⟨s, hs, hdot⟩ => hdot.elim (hrest' s hs).1 (hrest' s hs).2) hrest',
      List.reverse_cons, List.append_assoc]
    rfl

/-- The ASCII characters of segments behind a slash. -/
theorem countP_intercalate {segs : List Text} (h : segs ≠ []) :
    ('/' :: List.intercalate ['/'] segs).countP asciiChar = weight segs := by
  have hslash : asciiChar '/' = true := by decide
  induction segs with
  | nil => exact absurd rfl h
  | cons s segs ih =>
    cases segs with
    | nil =>
      rw [List.intercalate_singleton, List.countP_cons_of_pos hslash, weight_cons]
      rfl
    | cons s' segs =>
      have hrest := ih nofun
      rw [List.countP_cons_of_pos hslash] at hrest
      rw [List.intercalate_cons_cons, List.countP_cons_of_pos hslash, List.countP_append,
        List.countP_append, List.countP_cons_of_pos hslash, List.countP_nil, weight_cons, ← hrest]
      omega

/-- A path has a segment left. -/
theorem walk_ne_nil {kept segs : List Text} (h : segs ≠ []) : walk kept segs ≠ [] := by
  fun_induction walk kept segs with
  | case1 kept => exact absurd rfl h
  | case2 kept | case3 kept | case4 kept => simp
  | case5 kept rest hrest ih | case6 kept rest hrest _ ih | case7 kept _ rest hrest _ _ ih =>
    exact ih fun hnil => hrest hnil

/-- **A path with dot segments loses ASCII characters**; any other path is left alone. -/
theorem removeDots_spec (t : Text) :
    (¬HasDots ('/' :: t) → removeDots ('/' :: t) = '/' :: t) ∧
      (HasDots ('/' :: t) →
        (removeDots ('/' :: t)).countP asciiChar < ('/' :: t).countP asciiChar) := by
  have hjoin : List.intercalate ['/'] (segments ('/' :: t)) = t := List.intercalate_splitOn _
  have hne : segments ('/' :: t) ≠ [] := List.splitOn_ne_nil _ _
  refine ⟨fun h => ?_, fun h => ?_⟩
  · rw [removeDots, walk_of_no_dots [] _ h, List.reverse_nil, List.nil_append, hjoin]
  · have hless := (weight_walk [] (segments ('/' :: t))).2 h
    rw [removeDots, countP_intercalate (walk_ne_nil hne)]
    refine hless.trans_eq ?_
    rw [show weight ([] : List Text) = 0 from rfl, Nat.zero_add, ← countP_intercalate hne, hjoin]

end Url

end Cream.Library
