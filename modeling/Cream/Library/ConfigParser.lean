import Cream.Library.Ini
import Cream.Library.TextEditing

/-!
# The strict reader of configuration files

Python's `ConfigParser(interpolation=None)`: no comments after a value, lines that start with
`#` or `;` are comments, and a section or an option may not come twice. It shares sections,
options and cursors with the reader of `Ini`. An `Entry` is a line that means what it looks
like; entries read as their effects (`readLines_entries`), which is how a generated file is
followed line by line.
-/

set_option autoImplicit false

namespace Cream.Library.ConfigParser

open Text Ini

/-- The section of the defaults, which may come twice. -/
def DEFAULTSECT : Text := "DEFAULT".toList

/-- The line is only a comment. -/
def isComment (line : Text) : Bool :=
  match strip line with
  | c :: _ => c == '#' || c == ';'
  | [] => false

def classify (d : Dialect) (c : Cursor) (line : Text) : LineKind :=
  if isComment line then .comment
  else if strip line = [] then .blank
  else if c.Continues line then .continuation (strip line)
  else
    match d.sectionHeader (strip line) with
    | some name => .header name
    | none =>
      if c.sect = none then .headerless
      else
        match d.optionLine (strip line) with
        | some (name, value) => .option name value
        | none => .malformed

/-- A reader with the sections and options it has added. -/
structure Reader extends Ini.Reader where
  added : List (Text × Option Text)

/-- A round of the loop in `_read`; `none` is an error that ends it. -/
def readLine (d : Dialect) (r : Reader) (line : Text) : Option Reader :=
  let kind := classify d r.cursor line
  let cursor := r.cursor.next line kind
  match kind with
  | .blank => some { r with config := r.extend [] }
  | .comment => some r
  | .continuation value => some { r with config := r.extend value }
  | .header name =>
    if name = DEFAULTSECT then some { r with config := r.config.openSection name, cursor }
    -- `DuplicateSectionError`
    else if (name, none) ∈ r.added then none
    else some
      { r with config := r.config.openSection name, cursor, added := (name, none) :: r.added }
  | .headerless => none
  | .option name value => r.cursor.sect.bind fun sect =>
    -- `DuplicateOptionError`
    if (sect, some name) ∈ r.added then none
    else some
      { config := r.config.set sect name value
        cursor
        failed := r.failed || name == []
        added := (sect, some name) :: r.added }
  | .malformed => some { r with cursor, failed := true }

def readLines (d : Dialect) (r : Reader) (lines : List Text) : Option Reader :=
  lines.foldlM (readLine d) r

def Reader.start (c : Config) : Reader := { toReader := .start c, added := [] }

/-- `_read`, into a configuration. -/
def read (d : Dialect) (c : Config) (lines : List Text) : Option Config :=
  (readLines d (.start c) lines).bind fun r => r.toReader.finish

/-! ## Entries -/

/-- Lines that mean what they look like. -/
inductive Entry where
  | header (name : Text)
  | option (name value : Text)
  /-- the value of an option goes on -/
  | more (value : Text)

def Entry.render : Entry → Text
  | .header name => '[' :: name ++ [']']
  | .option name value => name ++ ':' :: (if value = [] then [] else ' ' :: value)
  | .more value => "    ".toList ++ value

/-- The characters of names. -/
def isNameChar (c : Char) : Bool := c.isLower || c == '_'

structure IsName (name : Text) : Prop where
  ne_nil : name ≠ []
  chars : ∀ c ∈ name, isNameChar c

/-- The characters of values: no spaces, and nothing that is special in some reader. -/
def isValueChar (c : Char) : Bool :=
  !isspace c && !isLineBreak c && c ∉ ['#', ';', '[', '\\', '$']

def IsValue (value : Text) : Prop := ∀ c ∈ value, isValueChar c

/-- The parts of an entry are names and values. -/
def Entry.Plain : Entry → Prop
  | .header name => IsName name
  | .option name value => IsName name ∧ IsValue value
  | .more value => value ≠ [] ∧ IsValue value

/-- What an entry does. -/
def Entry.read (r : Reader) : Entry → Option Reader
  | .header name =>
    if (name, none) ∈ r.added then none
    else some
      { config := r.config.openSection name
        cursor := ⟨some name, none, 0⟩
        failed := r.failed
        added := (name, none) :: r.added }
  | .option name value => r.cursor.sect.bind fun sect =>
    if (sect, some name) ∈ r.added then none
    else some
      { config := r.config.set sect name value
        cursor := ⟨some sect, some name, 0⟩
        failed := r.failed
        added := (sect, some name) :: r.added }
  | .more value => r.cursor.sect.bind fun sect => r.cursor.opt.bind fun opt =>
    if opt = [] then none else some { r with config := r.config.append sect opt value }

instance (name : Text) : Decidable (IsName name) :=
  haveI := List.decidableBAll (fun c => isNameChar c = true) name
  decidable_of_iff (name ≠ [] ∧ ∀ c ∈ name, isNameChar c)
    ⟨fun h => ⟨h.1, h.2⟩, fun h => ⟨h.ne_nil, h.chars⟩⟩

instance (value : Text) : Decidable (IsValue value) :=
  List.decidableBAll (fun c => isValueChar c = true) value

instance (e : Entry) : Decidable e.Plain :=
  match e with
  | .header name => inferInstanceAs (Decidable (IsName name))
  | .option name value => inferInstanceAs (Decidable (IsName name ∧ IsValue value))
  | .more value => inferInstanceAs (Decidable (value ≠ [] ∧ IsValue value))

/-- An entry without its value. -/
def Entry.unvalued : Entry → Entry
  | .header name => .header name
  | .option name _ => .option name []
  | .more _ => .more []

/-! ## Names and values -/

variable {c : Char} {name value : Text}

/-- The characters of names are among those from the underscore to `z`. -/
theorem isNameChar_range (h : isNameChar c) : 95 ≤ c.toNat ∧ c.toNat ≤ 122 := by
  unfold isNameChar at h
  rw [Bool.or_eq_true] at h
  rcases h with h | h
  · have hrange : 97 ≤ c.toNat ∧ c.toNat ≤ 122 := by
      simpa [Char.isLower, UInt32.le_iff_toNat_le] using h
    lia
  · rw [beq_iff_eq] at h
    subst h
    decide

/-- They may stand in values. -/
theorem isValueChar_of_isNameChar (h : isNameChar c) : isValueChar c := by
  obtain ⟨hlow, hhigh⟩ := isNameChar_range h
  have hspace : isspace c = false := by
    unfold isspace
    grind
  have hbreak : isLineBreak c = false := by
    unfold isLineBreak
    grind
  have hspecial : c ∉ ['#', ';', '[', '\\', '$'] := by
    intro hmem
    have hrange : ∀ d ∈ ['#', ';', '[', '\\', '$'], d.toNat < 95 := by simp
    exact absurd (hrange c hmem) (by lia)
  unfold isValueChar
  rw [hspace, hbreak, decide_eq_true hspecial]
  rfl

/-- So may digits. -/
theorem isValueChar_of_isDigit (h : c.isDigit) : isValueChar c := by
  have hrange : 48 ≤ c.toNat ∧ c.toNat ≤ 57 := by
    simpa [Char.isDigit, UInt32.le_iff_toNat_le] using h
  have hbreak : isLineBreak c = false := by
    unfold isLineBreak
    grind
  have hspecial : c ∉ ['#', ';', '[', '\\', '$'] := by
    intro hmem
    have houtside : ∀ d ∈ ['#', ';', '[', '\\', '$'], d.toNat < 48 ∨ 57 < d.toNat := by simp
    exact absurd (houtside c hmem) (by lia)
  unfold isValueChar
  rw [not_isspace_of_isDigit h, hbreak, decide_eq_true hspecial]
  rfl

/-- A character of a value is no blank. -/
theorem not_isspace (h : isValueChar c) : isspace c = false := by
  unfold isValueChar at h
  rw [Bool.and_eq_true, Bool.and_eq_true, Bool.not_eq_true'] at h
  exact h.1.1

/-- Nor does it end a line. -/
theorem not_isLineBreak (h : isValueChar c) : isLineBreak c = false := by
  unfold isValueChar at h
  rw [Bool.and_eq_true, Bool.and_eq_true, Bool.not_eq_true', Bool.not_eq_true'] at h
  exact h.1.2

/-- What is special in some reader is not in a value. -/
theorem IsValue.notMem {d : Char} (h : IsValue value) (hd : isValueChar d = false := by decide) :
    d ∉ value := by
  intro hmem
  rw [h d hmem] at hd
  cases hd

/-- A value begins and ends with no blank. -/
theorem IsValue.solid (h : IsValue value) (hne : value ≠ []) : Solid value :=
  ⟨hne, not_isspace (h _ (List.head_mem hne)), not_isspace (h _ (List.getLast_mem hne))⟩

/-- A name may be a value. -/
theorem IsName.isValue (h : IsName name) : IsValue name :=
  fun c hc => isValueChar_of_isNameChar (h.chars c hc)

/-- A name has no delimiter. -/
theorem IsName.not_isDelimiter (h : IsName name) : ∀ c ∈ name, isDelimiter c = false := by
  intro c hc
  have hlow := (isNameChar_range (h.chars c hc)).1
  have hne : ∀ d ∈ ['=', ':'], c ≠ d := by
    rintro d hd rfl
    have hall : ∀ e ∈ ['=', ':'], e.toNat < 95 := by simp
    exact absurd (hall c hd) (by lia)
  unfold isDelimiter
  rw [beq_false_of_ne (hne '=' (by decide)), beq_false_of_ne (hne ':' (by decide))]
  rfl

/-- It is in lower case. -/
theorem IsName.lower (h : IsName name) (d : Dialect) : d.lower name = name := by
  rw [d.lower_ascii name fun c hc => (isNameChar_range (h.chars c hc)).2.trans_lt (by decide)]
  refine (List.map_congr_left fun c hc => ?_).trans (List.map_id name)
  have hlow := (isNameChar_range (h.chars c hc)).1
  unfold Char.toLower
  rw [dif_neg]
  · rfl
  · rintro ⟨-, hupper⟩
    rw [UInt32.le_iff_toNat_le] at hupper
    exact absurd (hlow.trans hupper) (by decide)

/-! ## Reading entries -/

variable {d : Dialect} {r q : Reader} {e : Entry}

/-- A text with no blank at its ends, and more behind it that does not end with one. -/
theorem solid_append {a b : Text} (ha : Solid a) (hne : b ≠ [])
    (hb : isspace (b.getLast hne) = false) : Solid (a ++ b) := by
  refine ⟨by simp [ha.ne_nil], ?_, ?_⟩
  · rw [List.head_append_of_ne_nil ha.ne_nil]
    exact ha.head
  · rw [List.getLast_append_of_ne_nil (by simp [hne]) hne]
    exact hb

/-- A line that begins with neither `#` nor `;` is no comment. -/
theorem isComment_of_solid {line : Text} (h : Solid line)
    (hhead : line.head h.ne_nil ≠ '#' ∧ line.head h.ne_nil ≠ ';') : isComment line = false := by
  obtain ⟨c, s, rfl⟩ := List.exists_cons_of_ne_nil h.ne_nil
  unfold isComment
  rw [h.strip]
  simpa using hhead

/-- A line that begins with no blank is not indented. -/
theorem indentOf_of_solid {line : Text} (h : Solid line) : indentOf line = 0 := by
  obtain ⟨c, s, rfl⟩ := List.exists_cons_of_ne_nil h.ne_nil
  have hc : isspace c = false := h.head
  simp [indentOf, hc]

/-- It does not continue a value. -/
theorem not_continues_of_solid {line : Text} (h : Solid line) (c : Cursor) :
    ¬c.Continues line := fun hcont => by
  have hlt := hcont.2.2
  rw [indentOf_of_solid h] at hlt
  exact Nat.not_lt_zero _ hlt

/-- A name begins and ends with no blank. -/
theorem IsName.solid (h : IsName name) : Solid name := h.isValue.solid h.ne_nil

/-- So does a header. -/
theorem solid_header (h : IsName name) : Solid (Entry.header name).render :=
  solid_append (a := '[' :: name) (b := [']'])
    ⟨List.cons_ne_nil _ _, (by decide : isspace '[' = false), by
      rw [List.getLast_cons h.ne_nil]
      exact h.solid.last⟩
    (List.cons_ne_nil _ _) (by decide)

/-- So does an option. -/
theorem solid_option (h : IsName name) (hv : IsValue value) :
    Solid (Entry.option name value).render := by
  refine solid_append h.solid (List.cons_ne_nil _ _) ?_
  by_cases hnil : value = []
  · subst hnil
    decide
  · simp only [hnil, if_false]
    rw [List.getLast_cons (List.cons_ne_nil _ _), List.getLast_cons hnil]
    exact (hv.solid hnil).last

/-- The blanks before a further line of a value are stripped. -/
theorem strip_more (hv : IsValue value) (hne : value ≠ []) :
    strip (Entry.more value).render = value := by
  have h := strip_append (a := "    ".toList) (b := []) (hv.solid hne)
  simpa [Entry.render, isspace] using h

/-- An option's line starts with a character of its name. -/
theorem head_option_ne {d : Char} (h : IsName name) (hd : isNameChar d = false)
    (hne : (Entry.option name value).render ≠ []) :
    (Entry.option name value).render.head hne ≠ d := by
  rintro rfl
  have hname := h.chars _ (List.head_mem h.ne_nil)
  have hhead : (Entry.option name value).render.head hne = name.head h.ne_nil :=
    List.head_append_of_ne_nil h.ne_nil
  rw [hhead, hname] at hd
  cases hd

/-- An entry is no comment and not blank. -/
theorem isComment_render (h : e.Plain) : isComment e.render = false ∧ strip e.render ≠ [] := by
  cases e with
  | header name =>
    have hsolid := solid_header h
    refine ⟨isComment_of_solid hsolid ⟨?_, ?_⟩, by rw [hsolid.strip]; exact hsolid.ne_nil⟩
    · exact (by decide : '[' ≠ '#')
    · exact (by decide : '[' ≠ ';')
  | option name value =>
    have hsolid := solid_option h.1 h.2
    exact ⟨isComment_of_solid hsolid ⟨head_option_ne h.1 rfl _, head_option_ne h.1 rfl _⟩,
      by rw [hsolid.strip]; exact hsolid.ne_nil⟩
  | more value =>
    obtain ⟨hne, hv⟩ := h
    refine ⟨?_, by rw [strip_more hv hne]; exact hne⟩
    unfold isComment
    rw [strip_more hv hne]
    obtain ⟨c', s, rfl⟩ := List.exists_cons_of_ne_nil hne
    have hspecial : '#' ∉ c' :: s ∧ ';' ∉ c' :: s := ⟨hv.notMem, hv.notMem⟩
    rw [List.mem_cons, List.mem_cons, not_or, not_or] at hspecial
    simp [Ne.symm hspecial.1.1, Ne.symm hspecial.2.1]

/-- The name of a header goes up to its bracket. -/
theorem takeWhile_header (h : IsName name) : (name ++ [']']).takeWhile (· ≠ ']') = name := by
  have hclose : ']' ∉ name := fun hmem =>
    absurd (isNameChar_range (h.chars ']' hmem)).1 (by decide)
  rw [List.takeWhile_append_of_pos fun c hc => ?_]
  · simp
  · exact decide_eq_true fun heq => hclose (heq ▸ hc)

/-- The name of an option is what stands before its colon. -/
theorem takeWhile_option (h : IsName name) :
    (Entry.option name value).render.takeWhile (fun c => !isDelimiter c) = name := by
  unfold Entry.render
  rw [List.takeWhile_append_of_pos fun c hc => by rw [h.not_isDelimiter c hc]; rfl]
  simp [isDelimiter]

/-- **A header** is read as one. -/
theorem classify_header (d : Dialect) (c : Cursor) (h : IsName name) :
    classify d c (Entry.header name).render = .header name := by
  have hsolid := solid_header h
  have hheader : d.sectionHeader ('[' :: (name ++ [']'])) = some name := by
    have hname : (if d.toLastBracket then
        ((name ++ [']']).reverse.dropWhile (· ≠ ']')).tail.reverse
        else (name ++ [']']).takeWhile (· ≠ ']')) = name := by
      split
      · simp
      · exact takeWhile_header h
    unfold Dialect.sectionHeader
    simp only [hname]
    rw [if_pos ⟨by simp, h.ne_nil⟩]
  unfold classify
  rw [(isComment_render (e := .header name) h).1, hsolid.strip, if_neg Bool.false_ne_true,
    if_neg hsolid.ne_nil, if_neg (not_continues_of_solid hsolid c)]
  have hrender : (Entry.header name).render = '[' :: (name ++ [']']) := rfl
  rw [hrender, hheader]

/-- **An option** is read as one within a section. -/
theorem classify_option (d : Dialect) {c : Cursor} (hc : c.sect ≠ none) (h : IsName name)
    (hv : IsValue value) :
    classify d c (Entry.option name value).render = .option name value := by
  have hsolid := solid_option h hv
  have hheader : d.sectionHeader (Entry.option name value).render = none := by
    have hbracket := @head_option_ne name value '[' h rfl hsolid.ne_nil
    obtain ⟨c', s, hs⟩ := List.exists_cons_of_ne_nil hsolid.ne_nil
    simp only [hs, List.head_cons] at hbracket
    rw [hs]
    unfold Dialect.sectionHeader
    split
    · next heq =>
      cases heq
      exact absurd rfl hbracket
    · rfl
  have hoption : d.optionLine (Entry.option name value).render = some (name, value) := by
    have hdrop : (Entry.option name value).render.dropWhile (fun c => !isDelimiter c) =
        ':' :: (if value = [] then [] else ' ' :: value) := by
      unfold Entry.render
      rw [List.dropWhile_append_of_pos fun c hc => by rw [h.not_isDelimiter c hc]; rfl]
      simp [isDelimiter]
    have hvalue : strip (if value = [] then [] else ' ' :: value) = value := by
      by_cases hnil : value = []
      · subst hnil
        rfl
      · rw [if_neg hnil]
        have hstrip := strip_append (a := [' ']) (b := []) (hv.solid hnil)
        simpa [isspace] using hstrip
    have hname : rstrip name = name := by
      have hstrip := h.solid.strip
      have hleft : lstrip name = name := by
        obtain ⟨c', s, hs⟩ := List.exists_cons_of_ne_nil h.ne_nil
        have hc' : isspace c' = false := not_isspace (h.isValue c' (hs ▸ List.mem_cons_self))
        rw [hs]
        exact List.dropWhile_cons_of_neg (by simp [hc'])
      rwa [strip, hleft] at hstrip
    unfold Dialect.optionLine
    rw [takeWhile_option h, hdrop]
    simp only [hvalue, hname, h.lower d]
  unfold classify
  rw [(isComment_render (e := .option name value) ⟨h, hv⟩).1, hsolid.strip,
    if_neg Bool.false_ne_true, if_neg hsolid.ne_nil, if_neg (not_continues_of_solid hsolid c),
    hheader]
  simp only [if_neg hc, hoption]

/-- A further line of a value is indented by four blanks. -/
theorem indentOf_more (hv : IsValue value) (hne : value ≠ []) :
    indentOf (Entry.more value).render = 4 := by
  obtain ⟨c', s, rfl⟩ := List.exists_cons_of_ne_nil hne
  have hc' : isspace c' = false := not_isspace (hv c' List.mem_cons_self)
  have hspace : isspace ' ' = true := by decide
  simp [Entry.render, indentOf, hc', hspace]

/-- **A further line of a value** continues it. -/
theorem classify_more (d : Dialect) {c : Cursor} (hc : c.sect ≠ none) (ho : ∃ o ∈ c.opt, o ≠ [])
    (hindent : c.indent = 0) (hne : value ≠ []) (hv : IsValue value) :
    classify d c (Entry.more value).render = .continuation value := by
  have hcont : c.Continues (Entry.more value).render := by
    refine ⟨hc, ho, ?_⟩
    rw [hindent, indentOf_more hv hne]
    decide
  unfold classify
  rw [(isComment_render (e := .more value) ⟨hne, hv⟩).1, strip_more hv hne,
    if_neg Bool.false_ne_true, if_neg hne, if_pos hcont]

/-- **An entry reads as its effect.** -/
theorem readLine_render (h : e.Plain) (hindent : r.cursor.indent = 0) (hq : e.read r = some q) :
    readLine d r e.render = some q ∧ q.cursor.indent = 0 := by
  cases e with
  | header name =>
    have hkind := classify_header d r.cursor h
    have hline := indentOf_of_solid (solid_header h)
    have hdefault : name ≠ DEFAULTSECT := by
      rintro rfl
      exact absurd (h.chars 'D' (by decide)) (by decide)
    unfold readLine
    simp only [hkind, Cursor.next, hline, if_neg hdefault]
    simp only [Entry.read] at hq
    split at hq
    · cases hq
    · next hadded =>
      rw [if_neg hadded]
      cases hq
      exact ⟨rfl, rfl⟩
  | option name value =>
    obtain ⟨sect, hsect, hq⟩ := Option.bind_eq_some_iff.mp hq
    have hkind := classify_option d (by rw [hsect]; simp) h.1 h.2
    have hline := indentOf_of_solid (solid_option h.1 h.2)
    unfold readLine
    simp only [hkind, Cursor.next, hline, hsect, Option.bind_some, Bool.or_false,
      beq_eq_false_iff_ne.mpr h.1.ne_nil]
    split at hq
    · cases hq
    · next hadded =>
      rw [if_neg hadded]
      cases hq
      exact ⟨rfl, rfl⟩
  | more value =>
    obtain ⟨sect, hsect, hq⟩ := Option.bind_eq_some_iff.mp hq
    obtain ⟨opt, hopt, hq⟩ := Option.bind_eq_some_iff.mp hq
    split at hq
    · cases hq
    · next hne =>
      cases hq
      have hkind := classify_more d (c := r.cursor) (by rw [hsect]; simp)
        ⟨opt, hopt, hne⟩ hindent h.1 h.2
      unfold readLine Ini.Reader.extend
      simp only [hkind, hsect, hopt, if_neg hne]
      exact ⟨trivial, hindent⟩

/-- **Entries read as their effects.** -/
theorem readLines_render {es : List Entry} (h : ∀ e ∈ es, e.Plain) (hindent : r.cursor.indent = 0)
    (hq : es.foldlM Entry.read r = some q) : readLines d r (es.map Entry.render) = some q := by
  induction es generalizing r with
  | nil => exact hq
  | cons e es ih =>
    rw [List.foldlM_cons] at hq
    obtain ⟨r', hr', hq⟩ := Option.bind_eq_some_iff.mp hq
    obtain ⟨hread, hindent'⟩ := readLine_render (d := d) (h e List.mem_cons_self) hindent hr'
    unfold readLines at ih ⊢
    rw [List.map_cons, List.foldlM_cons, hread]
    exact ih (fun e' he' => h e' (List.mem_cons_of_mem _ he')) hindent' hq

/-- **Whether entries are read** does not depend on their values. -/
theorem foldlM_read_isSome {es : List Entry} {r' : Reader}
    (hr : r.cursor = r'.cursor ∧ r.added = r'.added)
    (h : ((es.map Entry.unvalued).foldlM Entry.read r').isSome) :
    (es.foldlM Entry.read r).isSome := by
  induction es generalizing r r' with
  | nil => rfl
  | cons e es ih =>
    obtain ⟨hcursor, hadded⟩ := hr
    rw [List.map_cons, List.foldlM_cons] at h
    rw [List.foldlM_cons]
    obtain ⟨q', hq', h⟩ : ∃ q', Entry.read r' e.unvalued = some q' ∧
        ((es.map Entry.unvalued).foldlM Entry.read q').isSome := by
      cases hread : Entry.read r' e.unvalued with
      | none =>
        rw [hread] at h
        cases h
      | some q' =>
        rw [hread] at h
        exact ⟨q', rfl, h⟩
    have hstep : ∃ q, Entry.read r e = some q ∧ q.cursor = q'.cursor ∧ q.added = q'.added := by
      cases e with
      | header name =>
        simp only [Entry.unvalued, Entry.read, hadded] at hq' ⊢
        split at hq'
        · cases hq'
        · next hnew =>
          cases hq'
          exact ⟨_, if_neg hnew, rfl, rfl⟩
      | option name value =>
        simp only [Entry.unvalued, Entry.read, hadded, hcursor] at hq' ⊢
        obtain ⟨sect, hsect, hq'⟩ := Option.bind_eq_some_iff.mp hq'
        split at hq'
        · cases hq'
        · next hnew =>
          cases hq'
          rw [hsect, Option.bind_some, if_neg hnew]
          exact ⟨_, rfl, rfl, rfl⟩
      | more value =>
        simp only [Entry.unvalued, Entry.read, hcursor] at hq' ⊢
        obtain ⟨sect, hsect, hq'⟩ := Option.bind_eq_some_iff.mp hq'
        obtain ⟨opt, hopt, hq'⟩ := Option.bind_eq_some_iff.mp hq'
        split at hq'
        · cases hq'
        · next hnil =>
          cases hq'
          rw [hsect, hopt, Option.bind_some, Option.bind_some, if_neg hnil]
          exact ⟨_, rfl, rfl, hadded⟩
    obtain ⟨q, hq, hqr⟩ := hstep
    rw [hq]
    exact ih hqr h

/-- Entries raise no error at the end. -/
theorem foldlM_read_failed {es : List Entry} (hq : es.foldlM Entry.read r = some q) :
    q.failed = r.failed := by
  induction es generalizing r with
  | nil =>
    cases hq
    rfl
  | cons e es ih =>
    rw [List.foldlM_cons] at hq
    obtain ⟨r', hr', hq⟩ := Option.bind_eq_some_iff.mp hq
    refine (ih hq).trans ?_
    cases e with
    | header name =>
      simp only [Entry.read] at hr'
      split at hr'
      · cases hr'
      · cases hr'
        rfl
    | option name value =>
      obtain ⟨sect, -, hr'⟩ := Option.bind_eq_some_iff.mp hr'
      split at hr'
      · cases hr'
      · cases hr'
        rfl
    | more value =>
      obtain ⟨sect, -, hr'⟩ := Option.bind_eq_some_iff.mp hr'
      obtain ⟨opt, -, hr'⟩ := Option.bind_eq_some_iff.mp hr'
      split at hr'
      · cases hr'
      · cases hr'
        rfl

/-- An option that has been read keeps its value while the reader is elsewhere. -/
structure Settled (r : Reader) (sect opt : Text) (ls : List Text) : Prop where
  linesOf : r.config.linesOf sect opt = some ls
  added : (sect, some opt) ∈ r.added
  elsewhere : ¬(r.cursor.sect = some sect ∧ r.cursor.opt = some opt)

/-- **An option cannot be set twice**, so its value stays. -/
theorem Settled.read {sect opt : Text} {ls : List Text} (h : Settled r sect opt ls)
    (hq : e.read r = some q) : Settled q sect opt ls := by
  cases e with
  | header name =>
    simp only [Entry.read] at hq
    split at hq
    · cases hq
    · cases hq
      exact ⟨by rw [Config.linesOf_openSection]; exact h.linesOf, List.mem_cons_of_mem _ h.added,
        fun hat => nomatch hat.2⟩
  | option name value =>
    obtain ⟨sect', hsect, hq⟩ := Option.bind_eq_some_iff.mp hq
    split at hq
    · cases hq
    · next hnew =>
      cases hq
      have hother : ¬(sect = sect' ∧ opt = name) := by
        rintro ⟨rfl, rfl⟩
        exact hnew h.added
      refine ⟨?_, List.mem_cons_of_mem _ h.added, fun hat => ?_⟩
      · rw [Config.set, Config.linesOf_modify, if_neg hother]
        exact h.linesOf
      · exact hother ⟨(Option.some.inj hat.1).symm, (Option.some.inj hat.2).symm⟩
  | more value =>
    obtain ⟨sect', hsect, hq⟩ := Option.bind_eq_some_iff.mp hq
    obtain ⟨opt', hopt, hq⟩ := Option.bind_eq_some_iff.mp hq
    split at hq
    · cases hq
    · cases hq
      have hother : ¬(sect = sect' ∧ opt = opt') := by
        rintro ⟨rfl, rfl⟩
        exact h.elsewhere ⟨hsect, hopt⟩
      refine ⟨?_, h.added, h.elsewhere⟩
      rw [Config.append, Config.linesOf_modify, if_neg hother]
      exact h.linesOf

/-- What is settled stays so while other entries are read. -/
theorem Settled.foldlM_read {sect opt : Text} {ls : List Text} {es : List Entry}
    (h : Settled r sect opt ls) (hq : es.foldlM Entry.read r = some q) : Settled q sect opt ls := by
  induction es generalizing r with
  | nil =>
    cases hq
    exact h
  | cons e es ih =>
    rw [List.foldlM_cons] at hq
    obtain ⟨r', hr', hq⟩ := Option.bind_eq_some_iff.mp hq
    exact ih (h.read hr') hq

end Cream.Library.ConfigParser
