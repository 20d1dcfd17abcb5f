import Cream.Library.TextEditing

/-!
# Globs and their regular expressions

A glob is a text in which `*` stands for any text, `?` for any character and every other
character for itself (`Matches`). The usual way to carry one out is to turn it into a regular
expression character by character (`toRegex`). A regular expression engine is given on the
texts that are made of characters, escaped dots, `.`, `.*` and groups (`parse`, `wholeMatch`);
what it makes of any other text is a parameter. `compile_toRegex` says what the expression
of a glob without further metacharacters matches: what the glob without its parentheses
matches, with wildcards that take no line terminator.
-/

set_option autoImplicit false

namespace Cream.Library.Glob

/-- A name a glob matches when its wildcards take the characters `accepts`. -/
inductive Matches (accepts : Char → Bool) : Text → Text → Prop
  | nil : Matches accepts [] []
  | star {p s : Text} (u : Text) : (∀ c ∈ u, accepts c) → Matches accepts p s →
      Matches accepts ('*' :: p) (u ++ s)
  | question {p s : Text} {c : Char} : accepts c → Matches accepts p s →
      Matches accepts ('?' :: p) (c :: s)
  | literal {p s : Text} {c : Char} : c ≠ '*' → c ≠ '?' → Matches accepts p s →
      Matches accepts (c :: p) (c :: s)

/-! ## The regular expressions -/

/-- A piece of a regular expression. -/
inductive Atom where
  | literal (c : Char)
  | any
  | many
  | opening
  | closing
deriving DecidableEq

/-- A character that is no metacharacter, or a parenthesis. -/
def ordinary (c : Char) : Option Atom :=
  if c = '(' then some .opening
  else if c = ')' then some .closing
  else if c ∈ ['\\', '*', '+', '?', '[', '{', '}', '^', '$', '|'] then none
  else some (.literal c)

/-- The pieces of a text that is made of characters, escaped dots, `.`, `.*` and parentheses. -/
def parse : Text → Option (List Atom)
  | [] => some []
  | [c] => if c = '.' then some [.any] else (ordinary c).map fun a => [a]
  | c :: d :: s =>
    if c = '\\' ∧ d = '.' then (parse s).map (.literal '.' :: ·)
    else if c = '.' ∧ d = '*' then (parse s).map (.many :: ·)
    else if c = '.' then (parse (d :: s)).map (.any :: ·)
    else (ordinary c).bind fun a => (parse (d :: s)).map (a :: ·)

/-- Every parenthesis has its partner; `depth` groups are open. -/
def balanced : Nat → List Atom → Bool
  | depth, [] => depth = 0
  | depth, .opening :: atoms => balanced (depth + 1) atoms
  | 0, .closing :: _ => false
  | depth + 1, .closing :: atoms => balanced depth atoms
  | depth, _ :: atoms => balanced depth atoms

/-- One character, then the rest. -/
def one (accepts : Char → Bool) (next : Text → Bool) : Text → Bool
  | [] => false
  | c :: s => accepts c && next s

/-- Any number of characters, then the rest. -/
def many (accepts : Char → Bool) (next : Text → Bool) : Text → Bool
  | [] => next []
  | c :: s => next (c :: s) || (accepts c && many accepts next s)

/-- A whole text matches; a dot takes the characters `accepts`. -/
def wholeMatch (accepts : Char → Bool) : List Atom → Text → Bool
  | [] => fun s => s.isEmpty
  | .literal c :: atoms => one (· = c) (wholeMatch accepts atoms)
  | .any :: atoms => one accepts (wholeMatch accepts atoms)
  | .many :: atoms => many accepts (wholeMatch accepts atoms)
  | .opening :: atoms => wholeMatch accepts atoms
  | .closing :: atoms => wholeMatch accepts atoms

/-- Whether a glob matches a name. -/
def test (accepts : Char → Bool) : Text → Text → Bool
  | [] => fun s => s.isEmpty
  | c :: glob =>
    if c = '*' then many accepts (test accepts glob)
    else if c = '?' then one accepts (test accepts glob)
    else one (· = c) (test accepts glob)

/-- An engine: the characters a dot does not take, and what becomes of the other texts; `none`
for a text that is no regular expression. -/
structure Engine where
  isTerminator : Char → Bool
  other : Text → Option (Text → Bool)

def Engine.compile (e : Engine) (regex : Text) : Option (Text → Bool) :=
  match parse regex with
  | some atoms =>
    if balanced 0 atoms then some (wholeMatch (fun c => !e.isTerminator c) atoms) else none
  | none => e.other regex

/-! ## From globs to regular expressions -/

/-- What a character of a glob becomes. -/
def piece (c : Char) : Text :=
  if c = '.' then ['\\', '.'] else if c = '*' then ['.', '*'] else if c = '?' then ['.'] else [c]

/-- The regular expression of a glob. -/
def toRegex (glob : Text) : Text := glob.flatMap piece

/-- The metacharacters of regular expressions that `toRegex` leaves as they are, parentheses
aside. -/
def METACHARACTERS : List Char := ['\\', '+', '[', '{', '}', '^', '$', '|']

/-- What a character of a glob is read as. -/
def atom (c : Char) : Atom :=
  if c = '*' then .many else if c = '?' then .any else if c = '(' then .opening
  else if c = ')' then .closing else .literal c

/-- A glob without its parentheses. -/
def ungrouped (glob : Text) : Text := glob.filter fun c => c ≠ '(' ∧ c ≠ ')'

variable {accepts : Char → Bool} {next : Text → Bool} {p s : Text} {c : Char}

/-! ### Reading the expression -/

/-- A dot that no star follows stands for any character. -/
theorem parse_dot (h : s.head? ≠ some '*') : parse ('.' :: s) = (parse s).map (.any :: ·) := by
  cases s with
  | nil => rfl
  | cons d s =>
    have hd : d ≠ '*' := fun hd => h (by rw [hd]; rfl)
    have hslash : '.' ≠ '\\' := by decide
    rw [parse, if_neg fun hand => hslash hand.1, if_neg fun hand => hd hand.2, if_pos rfl]

/-- An ordinary character stands for itself. -/
theorem parse_ordinary (hdot : c ≠ '.') (hslash : c ≠ '\\') :
    parse (c :: s) = (ordinary c).bind fun a => (parse s).map (a :: ·) := by
  cases s with
  | nil =>
    unfold parse
    rw [if_neg hdot]
    cases ordinary c with
    | none => rfl
    | some a => rfl
  | cons d s =>
    rw [parse, if_neg fun hand => hslash hand.1, if_neg fun hand => hdot hand.1, if_neg hdot]

/-- The expression of a glob does not start with a star. -/
theorem head?_toRegex (p : Text) : (toRegex p).head? ≠ some '*' := by
  cases p with
  | nil => exact Option.some_ne_none _ |>.symm
  | cons c p =>
    rw [toRegex, List.flatMap_cons, piece]
    split
    · simp
    · split
      · simp
      · split
        · simp
        · next hstar _ => simpa using hstar

/-- **The expression of a glob** is read back character by character. -/
theorem parse_toRegex (h : ∀ c ∈ p, c ∉ METACHARACTERS) : parse (toRegex p) = some (p.map atom) := by
  induction p with
  | nil => rfl
  | cons c p ih =>
    have hrest := ih fun d hd => h d (List.mem_cons_of_mem _ hd)
    have hc := h c List.mem_cons_self
    rw [toRegex, List.flatMap_cons, ← toRegex, List.map_cons]
    by_cases hdot : c = '.'
    · rw [hdot]
      show parse ('\\' :: '.' :: toRegex p) = some (Atom.literal '.' :: p.map atom)
      rw [parse, if_pos ⟨rfl, rfl⟩, hrest, Option.map_some]
    by_cases hstar : c = '*'
    · rw [hstar]
      show parse ('.' :: '*' :: toRegex p) = some (Atom.many :: p.map atom)
      rw [parse, if_neg (by decide), if_pos ⟨rfl, rfl⟩, hrest, Option.map_some]
    by_cases hquestion : c = '?'
    · rw [hquestion]
      show parse ('.' :: toRegex p) = some (Atom.any :: p.map atom)
      rw [parse_dot (head?_toRegex p), hrest, Option.map_some]
    have hslash : c ≠ '\\' := fun hslash => hc (by rw [hslash]; decide)
    have hordinary : ordinary c = some (atom c) := by
      have hmeta : c ∉ ['\\', '*', '+', '?', '[', '{', '}', '^', '$', '|'] := by
        simp only [METACHARACTERS, List.mem_cons, List.not_mem_nil, or_false, not_or] at hc ⊢
        tauto
      unfold ordinary atom
      rw [if_neg hmeta, if_neg hstar, if_neg hquestion]
      split
      · rfl
      · split <;> rfl
    rw [piece, if_neg hdot, if_neg hstar, if_neg hquestion, List.singleton_append,
      parse_ordinary hdot hslash, hordinary, hrest]
    rfl

/-! ### What it matches -/

/-- One character is taken. -/
theorem one_iff : one accepts next s = true ↔ ∃ c r, s = c :: r ∧ accepts c ∧ next r := by
  cases s with
  | nil => simp [one]
  | cons c s => simp [one]

/-- Any number of characters is taken. -/
theorem many_iff : many accepts next s = true ↔
    ∃ u r, s = u ++ r ∧ (∀ c ∈ u, accepts c) ∧ next r := by
  induction s with
  | nil =>
    rw [many]
    constructor
    · exact fun h => ⟨[], [], rfl, by simp, h⟩
    · rintro ⟨u, r, hs, -, h⟩
      rwa [(List.nil_eq_append_iff.mp hs).2] at h
  | cons c s ih =>
    rw [many, Bool.or_eq_true, Bool.and_eq_true, ih]
    constructor
    · rintro (h | ⟨hc, u, r, hs, hu, h⟩)
      · exact ⟨[], c :: s, rfl, by simp, h⟩
      · exact ⟨c :: u, r, by rw [hs, List.cons_append], by simpa [hc] using hu, h⟩
    · rintro ⟨u, r, hs, hu, h⟩
      cases u with
      | nil => exact .inl (by rwa [hs])
      | cons d u =>
        obtain ⟨rfl, hrest⟩ := List.cons.inj hs
        exact .inr ⟨hu c List.mem_cons_self, u, r, hrest,
          fun e he => hu e (List.mem_cons_of_mem _ he), h⟩

/-- The empty glob matches the empty text. -/
theorem matches_nil : Matches accepts [] s ↔ s = [] := by
  constructor
  · intro h
    cases h with
    | nil => rfl
  · rintro rfl
    exact .nil

/-- A star matches any beginning of accepted characters. -/
theorem matches_star : Matches accepts ('*' :: p) s ↔
    ∃ u r, s = u ++ r ∧ (∀ c ∈ u, accepts c) ∧ Matches accepts p r := by
  constructor
  · intro h
    cases h with
    | star u hu h => exact ⟨u, _, rfl, hu, h⟩
    | literal hstar _ _ => exact absurd rfl hstar
  · rintro ⟨u, r, rfl, hu, h⟩
    exact .star u hu h

/-- A question mark matches one accepted character. -/
theorem matches_question : Matches accepts ('?' :: p) s ↔
    ∃ c r, s = c :: r ∧ accepts c ∧ Matches accepts p r := by
  constructor
  · intro h
    cases h with
    | question hc h => exact ⟨_, _, rfl, hc, h⟩
    | literal _ hquestion _ => exact absurd rfl hquestion
  · rintro ⟨c, r, rfl, hc, h⟩
    exact .question hc h

/-- Any other character matches itself. -/
theorem matches_literal (hstar : c ≠ '*') (hquestion : c ≠ '?') :
    Matches accepts (c :: p) s ↔ ∃ r, s = c :: r ∧ Matches accepts p r := by
  constructor
  · intro h
    cases h with
    | star => exact absurd rfl hstar
    | question => exact absurd rfl hquestion
    | literal _ _ h => exact ⟨_, rfl, h⟩
  · rintro ⟨r, rfl, h⟩
    exact .literal hstar hquestion h

/-- **What a glob matches** is what its test finds. -/
theorem test_iff : test accepts p s = true ↔ Matches accepts p s := by
  induction p generalizing s with
  | nil => exact List.isEmpty_iff.trans matches_nil.symm
  | cons c p ih =>
    by_cases hstar : c = '*'
    · rw [hstar, test, if_pos rfl, many_iff, matches_star]
      simp only [ih]
    by_cases hquestion : c = '?'
    · rw [hquestion, test, if_neg (by decide), if_pos rfl, one_iff, matches_question]
      simp only [ih]
    rw [test, if_neg hstar, if_neg hquestion, one_iff, matches_literal hstar hquestion]
    simp only [ih, decide_eq_true_eq]
    constructor
    · rintro ⟨d, r, hs, rfl, h⟩
      exact ⟨r, hs, h⟩
    · rintro ⟨r, hs, h⟩
      exact ⟨c, r, hs, rfl, h⟩

instance (accepts : Char → Bool) (p s : Text) : Decidable (Matches accepts p s) :=
  decidable_of_iff (test accepts p s = true) test_iff

/-- **What the expression of a glob matches**: what the glob without its parentheses matches. -/
theorem wholeMatch_map (p : Text) : wholeMatch accepts (p.map atom) = test accepts (ungrouped p) := by
  induction p with
  | nil => rfl
  | cons c p ih =>
    rw [List.map_cons]
    by_cases hstar : c = '*'
    · rw [hstar]
      exact congrArg (many accepts) ih
    by_cases hquestion : c = '?'
    · rw [hquestion]
      exact congrArg (one accepts) ih
    by_cases hopening : c = '('
    · rw [hopening]
      exact ih
    by_cases hclosing : c = ')'
    · rw [hclosing]
      exact ih
    have hatom : atom c = .literal c := by
      rw [atom, if_neg hstar, if_neg hquestion, if_neg hopening, if_neg hclosing]
    have hkept : ungrouped (c :: p) = c :: ungrouped p :=
      List.filter_cons_of_pos (by simp [hopening, hclosing])
    rw [hatom, hkept, wholeMatch, test, if_neg hstar, if_neg hquestion, ih]

/-- **The expression of a glob** without further metacharacters. -/
theorem compile_toRegex (e : Engine) (h : ∀ c ∈ p, c ∉ METACHARACTERS) :
    e.compile (toRegex p) =
      if balanced 0 (p.map atom) then some (test (fun c => !e.isTerminator c) (ungrouped p))
      else none := by
  unfold Engine.compile
  rw [parse_toRegex h]
  dsimp only
  rw [wholeMatch_map]

/-! ## Globs -/

/-- A glob without wildcards matches itself. -/
theorem matches_self (hstar : '*' ∉ p) (hquestion : '?' ∉ p) : Matches accepts p s ↔ s = p := by
  induction p generalizing s with
  | nil => exact matches_nil
  | cons c p ih =>
    rw [List.mem_cons, not_or] at hstar hquestion
    rw [matches_literal (Ne.symm hstar.1) (Ne.symm hquestion.1)]
    constructor
    · rintro ⟨r, hs, h⟩
      rw [hs, (ih hstar.2 hquestion.2).mp h]
    · rintro rfl
      exact ⟨p, rfl, (ih hstar.2 hquestion.2).mpr rfl⟩

/-- Wildcards that take more match more. -/
theorem Matches.mono {more : Char → Bool} (hmore : ∀ c, accepts c → more c)
    (h : Matches accepts p s) : Matches more p s := by
  induction h with
  | nil => exact .nil
  | star u hu _ ih => exact .star u (fun c hc => hmore c (hu c hc)) ih
  | question hc _ ih => exact .question (hmore _ hc) ih
  | literal hstar hquestion _ ih => exact .literal hstar hquestion ih

/-- A glob without parentheses. -/
theorem ungrouped_eq (hopening : '(' ∉ p) (hclosing : ')' ∉ p) : ungrouped p = p := by
  refine List.filter_eq_self.mpr fun c hc => ?_
  refine decide_eq_true ⟨?_, ?_⟩
  · rintro rfl
    exact hopening hc
  · rintro rfl
    exact hclosing hc

/-- Without parentheses no group is opened or closed. -/
theorem balanced_map (hopening : '(' ∉ p) (hclosing : ')' ∉ p) (depth : Nat) :
    balanced depth (p.map atom) = decide (depth = 0) := by
  induction p with
  | nil => rfl
  | cons c p ih =>
    rw [List.mem_cons, not_or] at hopening hclosing
    have hrest := ih hopening.2 hclosing.2
    rw [List.map_cons, atom, if_neg (Ne.symm hopening.1), if_neg (Ne.symm hclosing.1)]
    split
    · cases depth <;> exact hrest
    · split
      · cases depth <;> exact hrest
      · cases depth <;> exact hrest

end Cream.Library.Glob
