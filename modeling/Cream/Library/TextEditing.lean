import Cream.Library.Text
import Mathlib

/-!
# Replacing, lines, tabs and decimals

More of a string library: `str.replace`, `str.splitlines`, `str.expandtabs`, and numbers in
decimal. A digit is what the library takes for one: `Digits` gives the values, of which only
those of ASCII characters are fixed. The rules: replacing passes over what does not start the
pattern (`replace_append`), lines with a line feed after each split into themselves
(`splitlines_flatMap`), and a number reads back (`Digits.decimal_toDigits`).
-/

set_option autoImplicit false

namespace Cream.Library.Text

/-- `str.replace`; the first `skip` characters belong to an occurrence. -/
def replaceFrom (p new : Text) : Nat → Text → Text
  | _, [] => []
  | skip + 1, _ :: s => replaceFrom p new skip s
  | 0, c :: s =>
    if p <+: c :: s then new ++ replaceFrom p new (p.length - 1) s
    else c :: replaceFrom p new 0 s

def replace (s p new : Text) : Text := replaceFrom p new 0 s

def isLineBreak (c : Char) : Bool :=
  let n := c.toNat
  (10 ≤ n && n ≤ 13) || (28 ≤ n && n ≤ 30) || n == 0x85 || n == 0x2028 || n == 0x2029

/-- `str.splitlines` of a text with no carriage return. -/
def splitlines (s : Text) : List Text :=
  let ls := s.splitOnP isLineBreak
  if ls.getLast? = some [] then ls.dropLast else ls

/-- `str.expandtabs` of a line, from a column on. -/
def expandtabs (tabsize : Nat) : Nat → Text → Text
  | _, [] => []
  | col, c :: s =>
    if c = '\t' then
      List.replicate (tabsize - col % tabsize) ' ' ++
        expandtabs tabsize (col + (tabsize - col % tabsize)) s
    else c :: expandtabs tabsize (col + 1) s

/-- The digits a string library knows. -/
structure Digits where
  value : Char → Option Nat
  ascii : ∀ c : Char, c.toNat < 128 → value c = if c.isDigit then some (c.toNat - 48) else none

/-- The digits of ASCII. -/
def asciiDigits : Digits where
  value c := if c.isDigit then some (c.toNat - 48) else none
  ascii _ _ := rfl

/-- The number these digits write after `acc`. -/
def Digits.decimalFrom (dg : Digits) (acc : Nat) (s : Text) : Option Nat :=
  s.foldlM (fun n c => (dg.value c).map (10 * n + ·)) acc

/-- A nonempty row of digits. -/
def Digits.decimal (dg : Digits) (s : Text) : Option Nat :=
  if s = [] then none else dg.decimalFrom 0 s

/-- The limit on the digits of an `int`. -/
def MAX_STR_DIGITS : Nat := 4300

/-- The digits of an `int`: single underscores may stand between them. -/
def Digits.ungrouped (dg : Digits) (afterDigit : Bool) : Text → Option Text
  | [] => if afterDigit then some [] else none
  | c :: s =>
    if c = '_' then if afterDigit then dg.ungrouped false s else none
    else if (dg.value c).isSome then (dg.ungrouped true s).map (c :: ·) else none

/-- An `int` without its sign. -/
def Digits.unsigned (dg : Digits) (s : Text) : Option Nat := do
  let digits ← dg.ungrouped false s
  if digits.length ≤ MAX_STR_DIGITS then dg.decimal digits else none

/-- Python's `int`. -/
def Digits.int (dg : Digits) (s : Text) : Option Int :=
  match strip s with
  | '-' :: t => (dg.unsigned t).map fun n => -(n : Int)
  | '+' :: t => (dg.unsigned t).map fun n => (n : Int)
  | t => (dg.unsigned t).map fun n => (n : Int)

variable {a p s new : Text} {c : Char}

/-! ## Replacing -/

/-- Before the first match nothing is replaced. -/
theorem replace_cons (h : ¬p <+: c :: s) : replace (c :: s) p new = c :: replace s p new := by
  rw [replace, replace, replaceFrom, if_neg h]

/-- **Replacing passes over** a text that does not have the pattern's first character. -/
theorem replace_append (hc : c ∉ a) : replace (a ++ s) (c :: p) new = a ++ replace s (c :: p) new := by
  induction a with
  | nil => rfl
  | cons d a ih =>
    have hd : d ≠ c := fun h => hc (h ▸ List.mem_cons_self)
    rw [List.cons_append, replace_cons fun h => hd (List.cons_prefix_cons.mp h).1.symm,
      ih fun h => hc (List.mem_cons_of_mem _ h), List.cons_append]

/-- What is passed over stays out. -/
theorem replaceFrom_append (a s : Text) :
    replaceFrom p new a.length (a ++ s) = replaceFrom p new 0 s := by
  induction a with
  | nil => rfl
  | cons d a ih => exact ih

/-- **An occurrence** is replaced. -/
theorem replace_occurrence : replace (c :: p ++ s) (c :: p) new = new ++ replace s (c :: p) new := by
  have hmatch : c :: p <+: c :: (p ++ s) := List.prefix_append (c :: p) s
  rw [replace, List.cons_append, replaceFrom, if_pos hmatch]
  exact congrArg _ (replaceFrom_append p s)

/-- Without the first character of the pattern nothing is replaced. -/
theorem replace_of_notMem (hc : c ∉ a) : replace a (c :: p) new = a := by
  have h := @replace_append a p [] new c hc
  have hnil : replace [] (c :: p) new = [] := rfl
  rwa [hnil, List.append_nil] at h

/-! ## Lines and tabs -/

/-- **Lines with a line feed after each** are the lines. -/
theorem splitlines_flatMap {ls : List Text} (h : ∀ l ∈ ls, ∀ c ∈ l, isLineBreak c = false) :
    splitlines (ls.flatMap (· ++ ['\n'])) = ls := by
  have hsplit : (ls.flatMap (· ++ ['\n'])).splitOnP isLineBreak = ls ++ [[]] := by
    induction ls with
    | nil => rfl
    | cons l ls ih =>
      rw [List.flatMap_cons, List.append_assoc, List.singleton_append,
        List.splitOnP_append_cons_of_forall_mem (h l List.mem_cons_self) '\n' (by decide),
        ih fun l' hl' => h l' (List.mem_cons_of_mem _ hl'), List.cons_append]
  unfold splitlines
  rw [hsplit]
  simp

/-- Without a tabulator nothing is expanded. -/
theorem expandtabs_of_notMem {tabsize col : Nat} (h : '\t' ∉ s) : expandtabs tabsize col s = s := by
  induction s generalizing col with
  | nil => rfl
  | cons c s ih =>
    have hc : c ≠ '\t' := fun hc => h (hc ▸ List.mem_cons_self)
    rw [expandtabs, if_neg hc, ih fun hs => h (List.mem_cons_of_mem _ hs)]

/-! ## Decimals -/

variable {dg : Digits}

/-- An ASCII digit has its value. -/
theorem Digits.value_of_isDigit (hc : c.isDigit) : dg.value c = some (c.toNat - 48) := by
  have hrange : 48 ≤ c.toNat ∧ c.toNat ≤ 57 := by
    simpa [Char.isDigit, UInt32.le_iff_toNat_le] using hc
  rw [dg.ascii c (by lia), if_pos hc]

/-- ASCII digits are read as a number. -/
theorem Digits.decimalFrom_of_isDigit (hs : ∀ c ∈ s, c.isDigit) (acc : Nat) :
    dg.decimalFrom acc s = some (Nat.ofDigitChars 10 s acc) := by
  induction s generalizing acc with
  | nil => rw [Nat.ofDigitChars_nil]; rfl
  | cons c s ih =>
    have hc := dg.value_of_isDigit (hs c List.mem_cons_self)
    unfold decimalFrom at ih ⊢
    rw [List.foldlM_cons, hc, Nat.ofDigitChars_cons]
    exact ih (fun d hd => hs d (List.mem_cons_of_mem _ hd)) _

/-- A number is written in ASCII digits. -/
theorem isDigit_of_mem_toDigits {n : Nat} (hc : c ∈ Nat.toDigits 10 n) : c.isDigit :=
  Nat.isDigit_of_mem_toDigits (by decide) (by decide) hc

/-- **A number reads back.** -/
theorem Digits.decimal_toDigits (dg : Digits) (n : Nat) :
    dg.decimal (Nat.toDigits 10 n) = some n := by
  unfold decimal
  rw [if_neg Nat.toDigits_ne_nil,
    dg.decimalFrom_of_isDigit (fun _ hc => isDigit_of_mem_toDigits hc) 0,
    Nat.ofDigitChars_ten_toDigits]

/-- There is no underscore among them. -/
theorem Digits.ungrouped_of_isDigit (hs : ∀ c ∈ s, c.isDigit) {after : Bool}
    (hne : after = false → s ≠ []) : dg.ungrouped after s = some s := by
  induction s generalizing after with
  | nil =>
    cases after with
    | false => exact absurd rfl (hne rfl)
    | true => rfl
  | cons c s ih =>
    have hc := hs c List.mem_cons_self
    have hunder : c ≠ '_' := by
      rintro rfl
      exact absurd hc (by decide)
    rw [ungrouped, if_neg hunder, if_pos (by rw [dg.value_of_isDigit hc]; rfl),
      ih (fun d hd => hs d (List.mem_cons_of_mem _ hd)) fun h => Bool.noConfusion h]
    rfl

/-- A digit is no blank. -/
theorem not_isspace_of_isDigit (hc : c.isDigit) : isspace c = false := by
  have hrange : 48 ≤ c.toNat ∧ c.toNat ≤ 57 := by
    simpa [Char.isDigit, UInt32.le_iff_toNat_le] using hc
  unfold isspace
  grind

/-- A solid text is stripped already. -/
theorem Solid.strip (h : Solid s) : strip s = s := by
  have hs := strip_append (a := []) (b := []) h
  simpa using hs

/-- A number that is not enormous reads back as an `int`. -/
theorem Digits.int_toDigits (dg : Digits) {n : Nat} (hn : n < 2 ^ 32) :
    dg.int (Nat.toDigits 10 n) = some (n : Int) := by
  have hdigits : ∀ c ∈ Nat.toDigits 10 n, c.isDigit := fun _ => isDigit_of_mem_toDigits
  have hlength : (Nat.toDigits 10 n).length ≤ MAX_STR_DIGITS := by
    have hten : (Nat.toDigits 10 n).length ≤ 10 :=
      (Nat.length_toDigits_le_iff (by decide) (by decide)).mpr (by lia)
    exact hten.trans (by decide)
  have hunsigned : dg.unsigned (Nat.toDigits 10 n) = some n := by
    unfold unsigned
    rw [dg.ungrouped_of_isDigit hdigits fun _ => Nat.toDigits_ne_nil, Option.bind_eq_bind,
      Option.bind_some, if_pos hlength, dg.decimal_toDigits]
  have hsolid : Solid (Nat.toDigits 10 n) :=
    ⟨Nat.toDigits_ne_nil, not_isspace_of_isDigit (hdigits _ (List.head_mem _)),
      not_isspace_of_isDigit (hdigits _ (List.getLast_mem _))⟩
  have hstrip : strip (Nat.toDigits 10 n) = Nat.toDigits 10 n := hsolid.strip
  unfold int
  rw [hstrip]
  split
  · next t ht =>
    exact absurd (hdigits '-' (ht ▸ List.mem_cons_self)) (by decide)
  · next t ht =>
    exact absurd (hdigits '+' (ht ▸ List.mem_cons_self)) (by decide)
  · rw [hunsigned]
    rfl

end Cream.Library.Text
