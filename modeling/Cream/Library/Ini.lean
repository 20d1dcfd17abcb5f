import Mathlib.Logic.Function.Basic
import Cream.Library.Text

/-!
# Configuration files of sections and options

The reader of Python's `RawConfigParser(strict=False)` for lines whose `#` comments are
already gone: section headers, options with `=` or `:`, values that continue on indented
lines, `;` comments. What a line means depends on the text of the line and on a `Cursor`: the
section and the option it may belong to (`Cursor.classify`, `Cursor.next`). What is read goes
into a `Config`; the rules say which lines an option has after a change of another one
(`Config.linesOf_modify`, `Config.linesOf_openSection`).
-/

set_option autoImplicit false

namespace Cream.Library.Ini

open Cream.Library Text

/-- Where the versions of the library differ. -/
structure Dialect where
  /-- `str.lower` -/
  lower : Text → Text
  lower_ascii : ∀ t : Text, (∀ c ∈ t, c.toNat < 128) → lower t = t.map Char.toLower
  /-- a section's name ends at the last closing bracket of its line, not at the first -/
  toLastBracket : Bool

/-- `SECTCRE.match`. -/
def Dialect.sectionHeader (d : Dialect) : Text → Option Text
  | '[' :: s =>
    let name := if d.toLastBracket then (s.reverse.dropWhile (· ≠ ']')).tail.reverse
      else s.takeWhile (· ≠ ']')
    if ']' ∈ s ∧ name ≠ [] then some name else none
  | _ => none

def isDelimiter (c : Char) : Bool := c == '=' || c == ':'

/-- `OPTCRE.match`: the option's name and its value. -/
def Dialect.optionLine (d : Dialect) (value : Text) : Option (Text × Text) :=
  match value.dropWhile fun c => !isDelimiter c with
  | [] => none
  | _ :: rest => some (d.lower (rstrip (value.takeWhile fun c => !isDelimiter c)), strip rest)

/-- A line up to its comment; `boundary` says whether a comment can start here. -/
def beforeComment (boundary : Bool) : Text → Text
  | [] => []
  | c :: s => if boundary && c == ';' then [] else c :: beforeComment (isspace c) s

/-- What is on a line. -/
def content (line : Text) : Text := strip (beforeComment true line)

def indentOf (line : Text) : Nat := (line.takeWhile isspace).length

/-- The current section, option and indentation. -/
structure Cursor where
  sect : Option Text
  opt : Option Text
  indent : Nat
deriving DecidableEq

def Cursor.start : Cursor := ⟨none, none, 0⟩

inductive LineKind where
  | blank
  | comment
  | continuation (value : Text)
  | header (name : Text)
  /-- an option or something else before the first header -/
  | headerless
  | option (name value : Text)
  | malformed
deriving DecidableEq

/-- There is an option an indented line can continue. -/
def Cursor.Continues (c : Cursor) (line : Text) : Prop :=
  c.sect ≠ none ∧ (∃ o ∈ c.opt, o ≠ []) ∧ c.indent < indentOf line

instance (c : Cursor) (line : Text) : Decidable (c.Continues line) :=
  inferInstanceAs (Decidable (_ ∧ (∃ o ∈ c.opt, o ≠ []) ∧ _))

def Cursor.classify (d : Dialect) (c : Cursor) (line : Text) : LineKind :=
  if content line = [] then
    if beforeComment true line = line then .blank else .comment
  else if c.Continues line then .continuation (content line)
  else
    match d.sectionHeader (content line) with
    | some name => .header name
    | none =>
      if c.sect = none then .headerless
      else
        match d.optionLine (content line) with
        | some (name, value) => .option name value
        | none => .malformed

def Cursor.next (c : Cursor) (line : Text) : LineKind → Cursor
  | .blank | .comment | .continuation _ => c
  | .header name => ⟨some name, none, indentOf line⟩
  | .option name _ => { c with opt := some name, indent := indentOf line }
  | .headerless | .malformed => { c with indent := indentOf line }

/-- The lines of the value of each option of a section. -/
abbrev Options := Text → Option (List Text)

/-- The sections; the one called `DEFAULT` holds the defaults. -/
abbrev Config := Text → Option Options

namespace Config

def empty : Config := fun _ => none

def openSection (c : Config) (sect : Text) : Config :=
  Function.update c sect (some ((c sect).getD fun _ => none))

def modify (c : Config) (sect opt : Text) (f : Option (List Text) → Option (List Text)) : Config :=
  Function.update c sect ((c sect).map fun o => Function.update o opt (f (o opt)))

/-- `cursect[optname] = [value]` -/
def set (c : Config) (sect opt value : Text) : Config := c.modify sect opt fun _ => some [value]

/-- `cursect[optname].append(value)` -/
def append (c : Config) (sect opt value : Text) : Config :=
  c.modify sect opt (Option.map (· ++ [value]))

/-- The lines of an option's own value. -/
def linesOf (c : Config) (sect opt : Text) : Option (List Text) := (c sect).bind (· opt)

/-- An option's own value: the lines are joined and the end stripped. -/
def value (c : Config) (sect opt : Text) : Option Text :=
  (c.linesOf sect opt).map fun ls => rstrip (unlines ls)

end Config

structure Reader where
  config : Config
  cursor : Cursor
  /-- a `ParsingError` is to be raised at the end -/
  failed : Bool

/-- Append to the current option, if there is one. -/
def Reader.extend (r : Reader) (value : Text) : Config :=
  match r.cursor.sect, r.cursor.opt with
  | some sect, some opt => if opt = [] then r.config else r.config.append sect opt value
  | _, _ => r.config

def Reader.start (c : Config) : Reader := ⟨c, .start, false⟩

/-- The end of `_read`: the errors are raised. -/
def Reader.finish (r : Reader) : Option Config := if r.failed then none else some r.config

/-! ## Configurations -/

namespace Config

/-- The lines of an option after one was changed. -/
theorem linesOf_modify (c : Config) (sect opt : Text)
    (f : Option (List Text) → Option (List Text)) (sect' opt' : Text) :
    (c.modify sect opt f).linesOf sect' opt' =
      if sect' = sect ∧ opt' = opt then (c sect).bind fun o => f (o opt)
      else c.linesOf sect' opt' := by
  unfold modify linesOf
  by_cases hs : sect' = sect
  · subst hs
    rw [Function.update_self]
    cases c sect' with
    | none => simp
    | some o =>
      by_cases ho : opt' = opt
      · subst ho
        simp
      · simp [ho]
  · rw [Function.update_of_ne hs, if_neg fun h => hs h.1]

/-- Opening a section changes no option. -/
theorem linesOf_openSection (c : Config) (name sect opt : Text) :
    (c.openSection name).linesOf sect opt = c.linesOf sect opt := by
  unfold openSection linesOf
  by_cases hs : sect = name
  · subst hs
    rw [Function.update_self]
    cases c sect <;> rfl
  · rw [Function.update_of_ne hs]

end Config

end Cream.Library.Ini
