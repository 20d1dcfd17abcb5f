import Mathlib.Data.List.DropRight
import Mathlib.Data.List.Infix
import Mathlib.Data.Nat.Find

/-!
# Texts

Texts as lists of characters, with the operations of a string library that programs edit
and read files with: stripping, universal newlines, lines, and the first place where one text
occurs in another (`List.dropInfix?`). The main rules say what an operation does on a text
that was appended to another: where a text occurs in an appended text
(`infix_append_cons`), what the appended text reads as (`universalNewlines_append`), what
stripping leaves of a line in the middle (`strip_append`).
-/

set_option autoImplicit false

namespace Cream.Library

abbrev Text := List Char

instance : LawfulBEq Text := inferInstanceAs (LawfulBEq (List Char))

instance : LawfulBEq (Text × Text) := inferInstance

namespace Text

/-- The characters `str.isspace` accepts. -/
def isspace (c : Char) : Bool :=
  let n := c.toNat
  (9 ≤ n && n ≤ 13) || (28 ≤ n && n ≤ 32) || n == 0x85 || n == 0xa0 || n == 0x1680 ||
    (0x2000 ≤ n && n ≤ 0x200a) || n == 0x2028 || n == 0x2029 || n == 0x202f || n == 0x205f ||
    n == 0x3000

def lstrip (s : Text) : Text := s.dropWhile isspace

def rstrip (s : Text) : Text := s.rdropWhile isspace

/-- `str.strip`. -/
def strip (s : Text) : Text := s.lstrip.rstrip

/-- `str.split` at line feeds. -/
def lines (s : Text) : List Text := s.splitOn '\n'

/-- `str.join` with line feeds. -/
def unlines (ls : List Text) : Text := List.intercalate ['\n'] ls

/-- The newline translation of a file that is read in text mode. -/
def universalNewlines : Text → Text
  | [] => []
  | '\r' :: '\n' :: s => '\n' :: universalNewlines s
  | '\r' :: s => '\n' :: universalNewlines s
  | c :: s => c :: universalNewlines s

variable {a b p s : Text} {c : Char}

/-! ## Occurrences -/

/-- **Where a text occurs** in an appended text: a text that could only reach across the
border over a character it does not have lies on one side. -/
theorem infix_append_cons (hc : c ∉ p.tail) {x y : Text}
    (h : a ++ c :: b = x ++ p ++ y) :
    (∃ y', a = x ++ p ++ y' ∧ y = y' ++ c :: b) ∨ ∃ x', x = a ++ x' ∧ c :: b = x' ++ p ++ y := by
  rcases List.append_eq_append_iff.mp h with ⟨z, hz, hb⟩ | ⟨z, ha, hy⟩
  · rcases List.append_eq_append_iff.mp hz with ⟨w, ha, hw⟩ | ⟨w, hx, hw⟩
    · -- the text starts before the border
      cases w with
      | nil =>
        rw [List.nil_append] at hw
        exact .inr ⟨[], by simpa using ha.symm, by rw [hb, hw, List.nil_append]⟩
      | cons d w =>
        cases z with
        | nil =>
          rw [List.append_nil] at hz
          exact .inl ⟨[], by rw [hz, List.append_nil], by simpa using hb.symm⟩
        | cons e z =>
          obtain ⟨rfl, -⟩ := List.cons.inj (hb.trans (List.cons_append ..))
          refine absurd ?_ hc
          rw [hw, List.cons_append, List.tail_cons]
          exact List.mem_append_right _ List.mem_cons_self
    · exact .inr ⟨w, hx, by rw [hb, hw]⟩
  · exact .inl ⟨z, ha, hy⟩

/-- Whether a text occurs in an appended text. -/
theorem isInfix_append_cons (hc : c ∉ p.tail) :
    p <:+: a ++ c :: b ↔ p <:+: a ∨ p <:+: c :: b := by
  constructor
  · rintro ⟨x, y, h⟩
    rcases infix_append_cons hc h.symm with ⟨y', ha, -⟩ | ⟨x', -, hb⟩
    · exact .inl ⟨x, y', ha.symm⟩
    · exact .inr ⟨x', y, hb.symm⟩
  · rintro (h | h)
    · exact h.trans (List.prefix_append a _).isInfix
    · exact h.trans (List.suffix_append a _).isInfix

/-- The first occurrence, with the text before and after it. -/
theorem dropInfix_some (h : s.dropInfix? p = some (a, b)) : s = a ++ p ++ b := by
  obtain ⟨⟨p', hs, hp⟩, -⟩ := List.dropInfix?_eq_some_iff.mp h
  rw [hs, eq_of_beq hp]

/-- A text that does not occur has no first occurrence. -/
theorem dropInfix_eq_none (h : ¬p <:+: s) : s.dropInfix? p = none := by
  cases hd : s.dropInfix? p with
  | none => rfl
  | some ab => exact absurd ⟨ab.1, ab.2, (dropInfix_some hd).symm⟩ h

/-! ## Newlines and lines -/

/-- A character that is no carriage return stays. -/
theorem universalNewlines_cons (hr : c ≠ '\r') :
    universalNewlines (c :: s) = c :: universalNewlines s := by
  rw [universalNewlines.eq_def]
  split
  · next h => cases h
  · next h =>
    cases h
    exact absurd rfl hr
  · next h =>
    cases h
    exact absurd rfl hr
  · next h =>
    cases h
    rfl

/-- **An appended text reads as itself**; a carriage return before it is lost in its line
feed. -/
theorem universalNewlines_append (a b : Text) :
    ∃ a', universalNewlines (a ++ '\n' :: b) = a' ++ '\n' :: universalNewlines b ∧
      (universalNewlines a = a' ∨ universalNewlines a = a' ++ ['\n']) := by
  induction a using universalNewlines.induct with
  | case1 => exact ⟨[], universalNewlines_cons (by decide), .inl rfl⟩
  | case2 s ih =>
    obtain ⟨a', h, ha⟩ := ih
    refine ⟨'\n' :: a', ?_, ?_⟩
    · rw [List.cons_append, List.cons_append, universalNewlines, h, List.cons_append]
    · rw [universalNewlines]
      exact ha.imp (congrArg _) (congrArg _)
  | case3 s hs ih =>
    cases s with
    | nil => exact ⟨[], rfl, .inr rfl⟩
    | cons d s =>
      have hd : d ≠ '\n' := fun hd => hs s (hd ▸ rfl)
      obtain ⟨a', h, ha⟩ := ih
      have hcr : ∀ t : Text, universalNewlines ('\r' :: d :: t) =
          '\n' :: universalNewlines (d :: t) := fun t => by
        rw [universalNewlines]
        intro t' ht
        exact hd (List.cons.inj ht).1
      refine ⟨'\n' :: a', ?_, ?_⟩
      · rw [List.cons_append, List.cons_append, hcr, ← List.cons_append, h, List.cons_append]
      · rw [hcr]
        exact ha.imp (congrArg _) (congrArg _)
  | case4 d s h2 h3 ih =>
    have hd : d ≠ '\r' := fun hd => h3 hd
    obtain ⟨a', h, ha⟩ := ih
    refine ⟨d :: a', ?_, ?_⟩
    · rw [List.cons_append, universalNewlines_cons hd, h, List.cons_append]
    · rw [universalNewlines_cons hd]
      exact ha.imp (congrArg _) (congrArg _)

/-- The lines of a text and of one that follows on a new line. -/
theorem lines_append (a b : Text) : lines (a ++ '\n' :: b) = lines a ++ lines b :=
  List.splitOn_append_cons_self a b

/-- A text with no line feed is a line. -/
theorem lines_eq_singleton (h : '\n' ∉ s) : lines s = [s] := List.splitOn_eq_singleton h

/-! ## Stripping -/

/-- A text that starts and ends with characters that are not spaces. -/
structure Solid (s : Text) : Prop where
  ne_nil : s ≠ []
  head : isspace (s.head ne_nil) = false
  last : isspace (s.getLast ne_nil) = false

/-- Stripping at the end stops at a character that stays. -/
theorem rdropWhile_append_cons {p : Char → Bool} (h : p c = false) (x y : Text) :
    (x ++ c :: y).rdropWhile p = x ++ c :: y.rdropWhile p := by
  induction y using List.reverseRecOn with
  | nil =>
    rw [List.rdropWhile_nil]
    exact List.rdropWhile_concat_neg p x c (by rw [h]; simp)
  | append_singleton y d ih =>
    rw [← List.cons_append, ← List.append_assoc, List.rdropWhile_concat, List.rdropWhile_concat, ih]
    split
    · rfl
    · rw [List.append_assoc, List.cons_append]

/-- **Stripping around a solid text** leaves it whole. -/
theorem strip_append (h : Solid s) :
    strip (a ++ s ++ b) = a.dropWhile isspace ++ s ++ b.rdropWhile isspace := by
  have hleft : ∀ t, (a ++ (s ++ t)).dropWhile isspace = a.dropWhile isspace ++ (s ++ t) := by
    intro t
    induction a with
    | nil =>
      obtain ⟨d, s, rfl⟩ := List.exists_cons_of_ne_nil h.ne_nil
      exact List.dropWhile_cons_of_neg (by simpa using h.head)
    | cons d a ih =>
      rw [List.cons_append, List.dropWhile_cons, List.dropWhile_cons]
      split
      · exact ih
      · rfl
  have hright : ∀ t, (t ++ s ++ b).rdropWhile isspace = t ++ s ++ b.rdropWhile isspace := by
    intro t
    induction b using List.reverseRecOn with
    | nil =>
      have hlast := h.last
      rw [List.append_nil, List.rdropWhile_nil, List.append_nil]
      rw [← List.dropLast_append_getLast h.ne_nil, ← List.append_assoc,
        List.rdropWhile_concat_neg _ _ _ (by simpa using hlast)]
    | append_singleton b d ih =>
      rw [← List.append_assoc, List.rdropWhile_concat, List.rdropWhile_concat]
      split
      · exact ih
      · rw [List.append_assoc]
  unfold strip rstrip lstrip
  rw [List.append_assoc, hleft, ← List.append_assoc, hright]

end Text

end Cream.Library
