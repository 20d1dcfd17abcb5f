import Cream.Model.FfmpegCmd

/-!
# What is read of the ffmpeg commands

The four patterns search the whole command. `-i '…'` finds the input as long as that has no
quote; a filter that is there is the first one found (`firstGroup_filter_some`), one that is not
there is found in the options behind it if they have one (`HasOption`); the output is the last
quoted text unless a quote is left open before it (`lastQuoted_iff`). `renderCmd_parsed_iff`
puts this together for both commands.
-/

set_option autoImplicit false

namespace Cream.Model

open Cream.Library Cream.Library.Text Cream.Library.Quoting

variable {cc : CharClasses} {rd : Radians} {config : RenderConfig} {names : RenderNames}

/-! ## Options in a text -/

/-- The text has an option `name '…'`. -/
def HasOption (cc : CharClasses) (name s : Text) : Prop :=
  ∃ before spaces value after, s = before ++ name ++ spaces ++ '\'' :: value ++ '\'' :: after ∧
    (spaces ≠ [] ∧ ∀ c ∈ spaces, cc.isSpace c) ∧ value ≠ [] ∧ '\'' ∉ value

/-- The text has an option `-r` with a number. -/
def HasRate (cc : CharClasses) (s : Text) : Prop :=
  ∃ before spaces digits after, s = before ++ ['-', 'r'] ++ spaces ++ digits ++ after ∧
    (spaces ≠ [] ∧ ∀ c ∈ spaces, cc.isSpace c) ∧ digits ≠ [] ∧ ∀ c ∈ digits, cc.isDigit c

/-- A quote is no blank. -/
theorem quote_not_space : cc.isSpace '\'' = false := cc.printable _ (by decide) (by decide)

/-- The ASCII digits are digits. -/
theorem isDigit_of_isDigit {c : Char} (hc : c.isDigit) : cc.isDigit c := by
  unfold CharClasses.isDigit
  rw [Digits.value_of_isDigit hc]
  rfl

/-- No other ASCII character is. -/
theorem not_isDigit_of_ascii {c : Char} (h : c.toNat < 128) (hc : c.isDigit = false) :
    cc.isDigit c = false := by
  unfold CharClasses.isDigit
  rw [cc.digits.ascii c h, if_neg (by rw [hc]; exact Bool.false_ne_true)]
  rfl

/-- They can be printed. -/
theorem isDigit_printable {c : Char} (hc : c.isDigit) : 32 < c.toNat ∧ c.toNat < 127 := by
  have hrange : 48 ≤ c.toNat ∧ c.toNat ≤ 57 := by
    simpa [Char.isDigit, UInt32.le_iff_toNat_le] using hc
  omega

/-! ## The pattern of an option -/

/-- INTERNAL: an option at the start of a text. -/
theorem matchAt_option (name : Text) {value : Text} (hne : value ≠ []) (hquote : '\'' ∉ value)
    (s : Text) : (cc.optionPattern name).matchAt (name ++ [' ', '\''] ++ value ++ '\'' :: s) =
      some ([value], s) := by
  have hquoted := matchAt_quote hne hquote s
  have hspace : Pattern.run cc.isSpace (Pattern.matchAt quotedPattern)
      ([' '] ++ '\'' :: (value ++ '\'' :: s)) = some ([' '], [value], s) := by
    refine Pattern.run_append (List.cons_ne_nil _ _) (fun c hc => ?_) (fun c hc => ?_) hquoted
    · rw [List.mem_singleton.mp hc]
      exact cc.space
    · cases hc
      exact quote_not_space
  have htext : name ++ [' ', '\''] ++ value ++ '\'' :: s =
      name ++ ([' '] ++ '\'' :: (value ++ '\'' :: s)) := by simp
  have hdrop : (name ++ ([' '] ++ '\'' :: (value ++ '\'' :: s))).dropPrefix? name =
      some ([' '] ++ '\'' :: (value ++ '\'' :: s)) :=
    List.dropPrefix?_append_of_beq _ (beq_self_eq_true name)
  rw [htext, CharClasses.optionPattern, Pattern.matchAt, hdrop, Option.bind_some, Pattern.matchAt,
    hspace]
  rfl

/-- INTERNAL: what the pattern of an option matches. -/
theorem matches_option {name t : Text} {gs : List Text}
    (h : Pattern.Matches (cc.optionPattern name) t gs) :
    ∃ spaces value, t = name ++ spaces ++ '\'' :: value ++ ['\''] ∧
      (spaces ≠ [] ∧ ∀ c ∈ spaces, cc.isSpace c) ∧ value ≠ [] ∧ '\'' ∉ value ∧ gs = [value] := by
  unfold CharClasses.optionPattern at h
  cases h with
  | text h =>
    cases h with
    | @run _ spaces s _ _ hne hall h =>
      unfold quotedPattern at h
      cases h with
      | text h =>
        cases h with
        | @group _ value _ _ _ hvalue hall' h =>
          cases h with
          | text h =>
            cases h
            refine ⟨spaces, value, by simp, ⟨hne, hall⟩, hvalue, fun hmem => ?_, rfl⟩
            exact absurd (hall' _ hmem) (by decide)

/-- What an option's pattern matches: its name, blanks, and a value in quotes. -/
theorem matchAt_option_eq_some {name t after : Text} {gs : List Text}
    (h : (cc.optionPattern name).matchAt t = some (gs, after)) :
    ∃ spaces value, t = name ++ spaces ++ '\'' :: value ++ '\'' :: after ∧
      (spaces ≠ [] ∧ ∀ c ∈ spaces, cc.isSpace c) ∧ value ≠ [] ∧ '\'' ∉ value ∧ gs = [value] := by
  obtain ⟨u, ht, hmatches⟩ := Pattern.matchAt_sound h
  obtain ⟨spaces, value, hu, hspaces, hvalue, hquote, hgs⟩ := matches_option hmatches
  exact ⟨spaces, value, by rw [ht, hu]; simp, hspaces, hvalue, hquote, hgs⟩

/-- A pattern all of whose matches have a group finds one in just the texts that match. -/
theorem firstGroup_eq_none {ps : Pattern} {s : Text}
    (hgroup : ∀ t gs, Pattern.Matches ps t gs → gs ≠ []) : firstGroup ps s = none ↔
      ¬∃ before t after gs, s = before ++ t ++ after ∧ Pattern.Matches ps t gs := by
  rw [← Pattern.find_isSome_iff, firstGroup]
  cases hfind : ps.find s with
  | none => simp
  | some found =>
    obtain ⟨before, gs, after⟩ := found
    obtain ⟨t, -, ht⟩ := Pattern.find_eq_some hfind
    obtain ⟨u, -, hmatches⟩ := Pattern.matchAt_sound ht
    have hne := hgroup u gs hmatches
    cases gs with
    | nil => exact absurd rfl hne
    | cons g gs => simp

/-- **An option is found** in just the texts that have one. -/
theorem firstGroup_option_eq_none {name s : Text} :
    firstGroup (cc.optionPattern name) s = none ↔ ¬HasOption cc name s := by
  rw [firstGroup_eq_none fun t gs h => ?_, not_iff_not]
  · constructor
    · rintro ⟨before, t, after, gs, rfl, hmatches⟩
      obtain ⟨spaces, value, rfl, hspaces, hne, hquote, -⟩ := matches_option hmatches
      exact ⟨before, spaces, value, after, by simp, hspaces, hne, hquote⟩
    · rintro ⟨before, spaces, value, after, rfl, hspaces, hne, hquote⟩
      exact ⟨before, name ++ (spaces ++ (['\''] ++ (value ++ (['\''] ++ [])))), after, [value],
        by simp, .text (.run hspaces.1 hspaces.2 (.text (.group hne (mem_isQuoted hquote)
          (.text .nil))))⟩
  · obtain ⟨-, value, -, -, -, -, rfl⟩ := matches_option h
    exact List.cons_ne_nil _ _

/-- **A rate is found** in just the texts that have one. -/
theorem firstGroup_rate_eq_none {s : Text} : firstGroup cc.fpsPattern s = none ↔ ¬HasRate cc s := by
  have hmatches : ∀ {t gs}, Pattern.Matches cc.fpsPattern t gs → ∃ spaces digits,
      t = ['-', 'r'] ++ spaces ++ digits ∧ (spaces ≠ [] ∧ ∀ c ∈ spaces, cc.isSpace c) ∧
        digits ≠ [] ∧ (∀ c ∈ digits, cc.isDigit c) ∧ gs = [digits] := by
    intro t gs h
    unfold CharClasses.fpsPattern at h
    cases h with
    | text h =>
      cases h with
      | @run _ spaces _ _ _ hne hall h =>
        cases h with
        | @group _ digits _ _ _ hdigits hall' h =>
          cases h
          exact ⟨spaces, digits, by simp, ⟨hne, hall⟩, hdigits, hall', rfl⟩
  rw [firstGroup_eq_none fun t gs h => ?_, not_iff_not]
  · constructor
    · rintro ⟨before, t, after, gs, rfl, h⟩
      obtain ⟨spaces, digits, rfl, hspaces, hne, hall, -⟩ := hmatches h
      exact ⟨before, spaces, digits, after, by simp, hspaces, hne, hall⟩
    · rintro ⟨before, spaces, digits, after, rfl, hspaces, hne, hall⟩
      exact ⟨before, ['-', 'r'] ++ (spaces ++ (digits ++ [])), after, [digits], by simp,
        .text (.run hspaces.1 hspaces.2 (.group hne hall .nil))⟩
  · obtain ⟨-, digits, -, -, -, -, rfl⟩ := hmatches h
    exact List.cons_ne_nil _ _

/-- What is found has no quotes. -/
theorem notMem_firstGroup_option {name s value : Text}
    (h : firstGroup (cc.optionPattern name) s = some value) : '\'' ∉ value := by
  obtain ⟨⟨before, gs, after⟩, hfind, hhead⟩ := Option.bind_eq_some_iff.mp h
  obtain ⟨t, -, ht⟩ := Pattern.find_eq_some hfind
  obtain ⟨-, value', -, -, -, hquote, rfl⟩ := matchAt_option_eq_some ht
  cases hhead
  exact hquote

/-- What is passed over does not change what is found. -/
theorem firstGroup_skip {ps : Pattern} {a s : Text}
    (h : ps.find (a ++ s) = (ps.find s).map fun (before, r) => (a ++ before, r)) :
    firstGroup ps (a ++ s) = firstGroup ps s := by
  unfold firstGroup
  rw [h]
  cases ps.find s <;> rfl

/-! ## The form of both commands -/

/-- A command: the rate if there is one, the input, the filter, the options and the output. -/
def command (rate input : Text) (filter : Option Text) (options output : Text) : Text :=
  rate ++ " -i '".toList ++ input ++ "'".toList ++ filterParam filter ++ options ++
    " '".toList ++ output ++ "' -y".toList

/-- The command behind the filter. -/
def behindFilter (options output : Text) : Text :=
  options ++ [' '] ++ '\'' :: output ++ '\'' :: [' ', '-', 'y']

/-- The main command, by its parts. -/
theorem renderCmd_eq (rd : Radians) (config : RenderConfig) (names : RenderNames) (fps : Int) :
    renderCmd rd config names fps = command (" -r ".toList ++ str fps) names.inputfiles
      (config.filter rd) config.options names.output := rfl

/-- The command of the preview, by its parts. -/
theorem previewCmd_eq (rd : Radians) (config : RenderConfig) (names : RenderNames) :
    previewCmd rd config names = command [] names.previewFilePath (config.filter rd)
      config.previewOptions names.previewFilePath := rfl

variable {rate input options output : Text} {filter : Option Text}

/-- The input stands behind the rate. -/
theorem command_eq (rate input : Text) (filter : Option Text) (options output : Text) :
    command rate input filter options output = rate ++ [' '] ++ (['-', 'i'] ++ [' ', '\''] ++
      input ++ '\'' :: (filterParam filter ++ behindFilter options output)) := by
  simp [command, behindFilter]

/-! ## The input -/

/-- INTERNAL: `-i` does not start in what is before it. -/
theorem find_input_skip (hrate : 'i' ∉ rate) (s : Text) :
    (cc.optionPattern ['-', 'i']).find (rate ++ [' '] ++ s) =
      ((cc.optionPattern ['-', 'i']).find s).map
        fun (before, r) => (rate ++ [' '] ++ before, r) := by
  refine Pattern.find_skip fun u hu hsuffix => ?_
  by_contra hsome
  obtain ⟨⟨gs, after⟩, hr⟩ := Option.ne_none_iff_exists'.mp hsome
  obtain ⟨spaces, value, heq, -⟩ := matchAt_option_eq_some hr
  have hlast : u.getLast? = some ' ' := by
    obtain ⟨a, ha⟩ := hsuffix
    rw [← List.getLast?_append_of_ne_nil a hu, ha, List.getLast?_concat]
  cases u with
  | nil => exact hu rfl
  | cons c u =>
    have hc : c = '-' := (List.cons.inj heq).1
    cases u with
    | nil =>
      rw [hc] at hlast
      cases hlast
    | cons d u =>
      have hd : d = 'i' := (List.cons.inj (List.cons.inj heq).2).1
      have hmem : 'i' ∈ rate ++ [' '] := hsuffix.subset (by rw [hd]; simp)
      simp [hrate] at hmem

/-- **The input** is read as it is, when it has no quote. -/
theorem firstGroup_input_iff (hrate : 'i' ∉ rate) (hne : input ≠ []) :
    (firstGroup (cc.optionPattern ['-', 'i']) (command rate input filter options output)).getD []
      = input ↔ '\'' ∉ input := by
  constructor
  · intro h
    cases hfound : firstGroup (cc.optionPattern ['-', 'i'])
        (command rate input filter options output) with
    | none =>
      rw [hfound] at h
      exact absurd h.symm hne
    | some value =>
      rw [hfound] at h
      exact h ▸ notMem_firstGroup_option hfound
  · intro hquote
    rw [command_eq, firstGroup_skip (find_input_skip hrate _)]
    unfold firstGroup
    rw [Pattern.find_of_matchAt (matchAt_option _ hne hquote _)]
    rfl

/-! ## The output -/

/-- INTERNAL: what is closed in the whole command, and what is open before the output. -/
theorem quoted_command (hrate : '\'' ∉ rate) (hne : input ≠ []) (hinput : '\'' ∉ input)
    (hfilter : ∀ f ∈ filter, f ≠ [] ∧ '\'' ∉ f) :
    ∃ closed, quoted none (command rate input filter options output) = closed ++
      quoted (quoting none (options ++ [' '])) ('\'' :: output ++ '\'' :: [' ', '-', 'y']) := by
  have hstart : '\'' ∉ rate ++ [' '] ++ ['-', 'i', ' '] := by simp [hrate]
  have hform : command rate input filter options output = rate ++ [' '] ++ ['-', 'i', ' '] ++
      ('\'' :: input ++ '\'' :: (filterParam filter ++ behindFilter options output)) := by
    rw [command_eq]
    simp
  obtain ⟨hopen, hclosed⟩ := quoting_none hstart
  have hbehind : quoted none (behindFilter options output) = quoted none (options ++ [' ']) ++
      quoted (quoting none (options ++ [' '])) ('\'' :: output ++ '\'' :: [' ', '-', 'y']) := by
    have hassoc : behindFilter options output =
        (options ++ [' ']) ++ ('\'' :: output ++ '\'' :: [' ', '-', 'y']) := by
      simp [behindFilter]
    rw [hassoc, quoted_append]
  rw [hform, quoted_append, hopen, hclosed, (quoted_quote hne hinput _).1]
  cases filter with
  | none =>
    refine ⟨input :: quoted none (options ++ [' ']), ?_⟩
    rw [filterParam, List.nil_append, List.nil_append, hbehind]
    rfl
  | some f =>
    obtain ⟨hf, hquote⟩ := hfilter f rfl
    have hvf : filterParam (some f) ++ behindFilter options output =
        [' ', '-', 'v', 'f', ' '] ++ ('\'' :: f ++ '\'' :: behindFilter options output) := by
      simp [filterParam]
    have hplain : '\'' ∉ [' ', '-', 'v', 'f', ' '] := by simp
    refine ⟨input :: f :: quoted none (options ++ [' ']), ?_⟩
    rw [hvf, quoted_append, (quoting_none hplain).1, (quoting_none hplain).2,
      (quoted_quote hf hquote _).1, hbehind]
    rfl

/-- INTERNAL: what is open behind a blank ends with the blank. -/
theorem quoting_blank {w : Text} (h : quoting none (options ++ [' ']) = some w) :
    ∃ w', w = w' ++ [' '] := by
  rw [quoting_append, quoting, quoting] at h
  cases hopen : quoting none options with
  | none =>
    rw [hopen] at h
    cases h
  | some v =>
    rw [hopen] at h
    cases v with
    | nil => exact ⟨[], (Option.some.inj h).symm⟩
    | cons d v => exact ⟨d :: v, (Option.some.inj h).symm⟩

/-- The last of the quoted texts. -/
theorem lastQuoted_eq (cmd : Text) : lastQuoted cmd = (quoted none cmd).getLast? := by
  unfold lastQuoted
  rw [findAll_quoted, List.getLast?_map]
  cases (quoted none cmd).getLast? <;> rfl

/-- **The output** is read as it is when it has no quote and none is left open before it. -/
theorem lastQuoted_iff (hrate : '\'' ∉ rate) (hne : input ≠ []) (hinput : '\'' ∉ input)
    (hfilter : ∀ f ∈ filter, f ≠ [] ∧ '\'' ∉ f) {c : Char} {out : Text}
    (hout : output = out ++ [c]) (hc : c ≠ ' ') :
    (lastQuoted (command rate input filter options output)).getD [] = output ↔
      '\'' ∉ output ∧ Closed (options ++ [' ']) := by
  have houtput : output ≠ [] := by rw [hout]; simp
  obtain ⟨closed, hquoted⟩ := quoted_command hrate hne hinput hfilter
  rw [lastQuoted_eq, hquoted]
  constructor
  · intro h
    have hmem : ∃ x, (closed ++ quoted (quoting none (options ++ [' ']))
        ('\'' :: output ++ '\'' :: [' ', '-', 'y'])).getLast? = some x ∧ x = output := by
      cases hlast : (closed ++ quoted (quoting none (options ++ [' ']))
          ('\'' :: output ++ '\'' :: [' ', '-', 'y'])).getLast? with
      | none =>
        rw [hlast] at h
        exact absurd h.symm houtput
      | some x =>
        rw [hlast] at h
        exact ⟨x, rfl, h⟩
    obtain ⟨x, hlast, rfl⟩ := hmem
    have hnoquote : '\'' ∉ x := by
      have hin := List.mem_of_getLast? hlast
      rw [← hquoted] at hin
      exact notMem_quoted (fun w hw => absurd hw (Option.some_ne_none w).symm) hin
    refine ⟨hnoquote, ?_⟩
    -- what is open would be closed last
    by_contra hopen
    obtain ⟨w, hw⟩ := Option.ne_none_iff_exists'.mp hopen
    obtain ⟨w', rfl⟩ := quoting_blank hw
    have hclose : quoted (some (w' ++ [' '])) ('\'' :: x ++ '\'' :: [' ', '-', 'y']) =
        [w' ++ [' ']] := by
      have hrest : quoted none (x ++ '\'' :: [' ', '-', 'y']) = [] := by
        rw [quoted_append, (quoting_none hnoquote).1, (quoting_none hnoquote).2, List.nil_append]
        exact (quoting_some [] (s := [' ', '-', 'y']) (by simp)).2
      cases w' with
      | nil => exact congrArg _ hrest
      | cons d w' => exact congrArg _ hrest
    rw [hw, hclose, List.getLast?_append] at hlast
    simp only [List.getLast?_singleton, Option.some_or, Option.some.injEq] at hlast
    have hsame : (w' ++ [' ']).getLast? = (out ++ [c]).getLast? := by rw [hlast, hout]
    rw [List.getLast?_append, List.getLast?_append] at hsame
    simp only [List.getLast?_singleton, Option.some_or, Option.some.injEq] at hsame
    exact hc hsame.symm
  · rintro ⟨hnoquote, hclosed⟩
    have hopen : quoting none (options ++ [' ']) = none := hclosed
    have hend : '\'' ∉ [' ', '-', 'y'] := by simp
    rw [hopen, (quoted_quote houtput hnoquote _).1, (quoting_none hend).2, List.getLast?_append]
    rfl

/-! ## The filter -/

/-- The characters before the first quote. -/
theorem takeWhile_quote {a b : Text} (h : '\'' ∉ a) :
    (a ++ '\'' :: b).takeWhile isQuoted = a := by
  rw [List.takeWhile_append_of_pos (mem_isQuoted h), List.takeWhile_cons_of_neg (by decide),
    List.append_nil]

/-- INTERNAL: no filter starts before a quote that another word stands before. -/
theorem no_filter_before {a spaces u rest : Text} {c : Char} (hquote : '\'' ∉ a ++ c :: spaces)
    (hspaces : ∀ d ∈ spaces, cc.isSpace d) (hspace : cc.isSpace c = false) (hc : c ≠ 'f')
    (hu : u <:+ a ++ c :: spaces) :
    (cc.optionPattern ['-', 'v', 'f']).matchAt (u ++ '\'' :: rest) = none := by
  by_contra hsome
  obtain ⟨⟨gs, after⟩, hr⟩ := Option.ne_none_iff_exists'.mp hsome
  obtain ⟨spaces', value, heq, ⟨-, hall⟩, -⟩ := matchAt_option_eq_some hr
  have hbefore : '\'' ∉ ['-', 'v', 'f'] ++ spaces' := by
    simp only [List.cons_append, List.nil_append, List.mem_cons, not_or]
    refine ⟨by decide, by decide, by decide, fun hmem => ?_⟩
    exact absurd (hall _ hmem) (by rw [quote_not_space]; exact Bool.false_ne_true)
  have hfirst : u = ['-', 'v', 'f'] ++ spaces' := by
    have hform : u ++ '\'' :: rest =
        (['-', 'v', 'f'] ++ spaces') ++ '\'' :: (value ++ '\'' :: after) := by
      rw [heq]
      simp
    have htake := congrArg (List.takeWhile isQuoted) hform
    rwa [takeWhile_quote fun hmem => hquote (hu.subset hmem), takeWhile_quote hbefore] at htake
  obtain ⟨z, hz⟩ := hu
  -- before the spaces stands an `f`
  have hf : cc.isSpace 'f' = false := cc.printable _ (by decide) (by decide)
  have hdrop : (a ++ c :: spaces).rdropWhile cc.isSpace = (z ++ ['-', 'v'] ++ ['f']) := by
    have hform : a ++ c :: spaces = (z ++ ['-', 'v']) ++ 'f' :: spaces' := by
      rw [← hz, hfirst]
      simp
    rw [hform, rdropWhile_append_cons hf, List.rdropWhile_eq_nil_iff.mpr hall]
  rw [rdropWhile_append_cons hspace, List.rdropWhile_eq_nil_iff.mpr hspaces] at hdrop
  exact hc (List.cons.inj (List.append_inj' hdrop rfl).2).1

/-- INTERNAL: no filter starts before the end of the input. -/
theorem firstGroup_filter_skip {x : Text} (hrate : '\'' ∉ rate) (hinput : '\'' ∉ input)
    {a : Text} (hform : input = a ++ ['g']) :
    firstGroup (cc.optionPattern ['-', 'v', 'f'])
      (rate ++ [' '] ++ (['-', 'i'] ++ [' ', '\''] ++ input ++ '\'' :: x)) =
    firstGroup (cc.optionPattern ['-', 'v', 'f']) x := by
  have hshape : rate ++ [' '] ++ (['-', 'i'] ++ [' ', '\''] ++ input ++ '\'' :: x) =
      ((rate ++ [' ', '-'] ++ 'i' :: [' ']) ++ '\'' :: input ++ ['\'']) ++ x := by simp
  rw [hshape]
  refine firstGroup_skip (Pattern.find_skip fun u hne hu => ?_)
  have hbefore : '\'' ∉ rate ++ [' ', '-'] ++ 'i' :: [' '] := by simp [hrate]
  -- does `u` start before the first quote, or behind it?
  have hsplit : (∃ v, v <:+ rate ++ [' ', '-'] ++ 'i' :: [' '] ∧
      u = v ++ '\'' :: (input ++ ['\''])) ∨ ∃ v, v <:+ input ∧ u = v ++ ['\''] := by
    obtain ⟨z, hz⟩ := hu
    rw [List.append_assoc, List.cons_append] at hz
    rcases List.append_eq_append_iff.mp hz with ⟨v, hv, hu'⟩ | ⟨v, -, hu'⟩
    · exact .inl ⟨v, ⟨z, hv.symm⟩, hu'⟩
    · cases v with
      | nil => exact .inl ⟨[], List.nil_suffix, by rw [List.nil_append] at hu' ⊢; exact hu'.symm⟩
      | cons d v =>
        rw [List.cons_append, List.cons.injEq] at hu'
        rcases List.append_eq_append_iff.mp hu'.2 with ⟨v', hv', hquote⟩ | ⟨v', hv', hquote⟩
        · cases v' with
          | nil =>
            refine .inr ⟨[], List.nil_suffix, ?_⟩
            rw [List.nil_append] at hquote
            exact hquote.symm
          | cons e v' =>
            rw [List.cons_append, List.cons.injEq] at hquote
            exact absurd (List.append_eq_nil_iff.mp hquote.2.symm).2 hne
        · exact .inr ⟨v', ⟨v, hv'.symm⟩, hquote⟩
  rcases hsplit with ⟨v, hv, rfl⟩ | ⟨v, hv, rfl⟩
  · rw [List.append_assoc, List.cons_append]
    refine no_filter_before hbefore (fun d hd => ?_) (cc.printable _ (by decide) (by decide))
      (by decide) hv
    rw [List.mem_singleton.mp hd]
    exact cc.space
  · rw [List.append_assoc, List.singleton_append]
    rw [hform] at hinput hv
    exact @no_filter_before cc a [] v x 'g' hinput (fun d hd => (List.not_mem_nil hd).elim)
      (cc.printable _ (by decide) (by decide)) (by decide) hv

/-- **The filter** is read as it is, when the options behind have none or it is there. -/
theorem firstGroup_filter_iff (hrate : '\'' ∉ rate) (hinput : '\'' ∉ input)
    {a : Text} (hform : input = a ++ ['g']) (hfilter : ∀ f ∈ filter, f ≠ [] ∧ '\'' ∉ f) :
    firstGroup (cc.optionPattern ['-', 'v', 'f']) (command rate input filter options output) =
      filter ↔ (filter = none → ¬HasOption cc ['-', 'v', 'f'] (behindFilter options output)) := by
  rw [command_eq, firstGroup_filter_skip hrate hinput hform]
  cases filter with
  | none =>
    rw [filterParam, List.nil_append, firstGroup_option_eq_none]
    simp
  | some f =>
    obtain ⟨hne, hquote⟩ := hfilter f rfl
    have hshape : filterParam (some f) ++ behindFilter options output =
        ' ' :: (['-', 'v', 'f'] ++ [' ', '\''] ++ f ++ '\'' :: behindFilter options output) := by
      simp [filterParam]
    have hblank : (cc.optionPattern ['-', 'v', 'f']).matchAt (' ' :: (['-', 'v', 'f'] ++
        [' ', '\''] ++ f ++ '\'' :: behindFilter options output)) = none := by
      simp [CharClasses.optionPattern, Pattern.matchAt, List.dropPrefix?]
    have hfound : firstGroup (cc.optionPattern ['-', 'v', 'f'])
        (filterParam (some f) ++ behindFilter options output) = some f := by
      unfold firstGroup
      rw [hshape, Pattern.find_cons hblank,
        Pattern.find_of_matchAt (matchAt_option _ hne hquote _)]
      rfl
    rw [hfound]
    simp

/-! ## The frame rate -/

/-- INTERNAL: a rate has no quote, so it does not reach over one. -/
theorem hasRate_append_quote {a b : Text} :
    HasRate cc (a ++ '\'' :: b) ↔ HasRate cc a ∨ HasRate cc b := by
  constructor
  · rintro ⟨before, spaces, digits, after, heq, hspaces, hne, hdigits⟩
    have hquote : '\'' ∉ 'r' :: (spaces ++ digits) := by
      simp only [List.mem_cons, List.mem_append, not_or]
      refine ⟨by decide, fun hmem => ?_, fun hmem => ?_⟩
      · exact absurd (hspaces.2 _ hmem) (by rw [quote_not_space]; exact Bool.false_ne_true)
      · have hno := @not_isDigit_of_ascii cc (c := '\'') (by decide) (by decide)
        exact absurd (hdigits _ hmem) (by rw [hno]; exact Bool.false_ne_true)
    have hform : a ++ '\'' :: b = before ++ ('-' :: 'r' :: (spaces ++ digits)) ++ after := by
      rw [heq]
      simp
    rcases infix_append_cons (by rwa [List.tail_cons]) hform with
      ⟨y, rfl, -⟩ | ⟨x, -, hx⟩
    · exact .inl ⟨before, spaces, digits, y, by simp, hspaces, hne, hdigits⟩
    · right
      cases x with
      | nil =>
        rw [List.nil_append, List.cons_append, List.cons.injEq] at hx
        exact absurd hx.1 (by decide)
      | cons d x =>
        rw [List.cons_append, List.cons_append, List.cons.injEq] at hx
        exact ⟨x, spaces, digits, after, by rw [hx.2]; simp, hspaces, hne, hdigits⟩
  · rintro (⟨before, spaces, digits, after, rfl, h⟩ | ⟨before, spaces, digits, after, rfl, h⟩)
    · exact ⟨before, spaces, digits, after ++ '\'' :: b, by simp, h⟩
    · exact ⟨a ++ '\'' :: before, spaces, digits, after, by simp, h⟩

/-- INTERNAL: a rate needs a dash with an `r` behind it. -/
theorem not_hasRate {a : Text} (h : '-' ∉ a ∨ 'r' ∉ a.tail) : ¬HasRate cc a := by
  rintro ⟨before, spaces, digits, after, rfl, -⟩
  rcases h with hdash | hr
  · exact hdash (by simp)
  · refine hr ?_
    cases before <;> simp

/-- INTERNAL: a rate starts with a dash and ends with a digit. -/
theorem hasRate_options {extra : Text} :
    HasRate cc ([' ', '-', 'a', 'n', ' '] ++ extra ++ [' ']) ↔ HasRate cc extra := by
  constructor
  · rintro ⟨before, spaces, digits, after, heq, hspaces, hne, hdigits⟩
    have hhead : ∃ x, before = [' ', '-', 'a', 'n', ' '] ++ x := by
      simp only [List.cons_append, List.nil_append] at heq
      match before, heq with
      | [], heq => simp at heq
      | [_], heq => simp at heq
      | [_, _], heq => simp at heq
      | [_, _, _], heq => simp at heq
      | [_, _, _, _], heq => simp at heq
      | a :: b :: c :: d :: e :: x, heq =>
        simp only [List.cons_append, List.cons.injEq] at heq
        obtain ⟨rfl, rfl, rfl, rfl, rfl, -⟩ := heq
        exact ⟨x, rfl⟩
    obtain ⟨x, rfl⟩ := hhead
    have hrest : extra ++ [' '] = x ++ ['-', 'r'] ++ spaces ++ digits ++ after := by
      simpa using heq
    rcases List.eq_nil_or_concat after with rfl | ⟨y, e, rfl⟩
    · -- the blank at the end is no digit
      exfalso
      obtain ⟨ds, d, rfl⟩ := (List.eq_nil_or_concat digits).resolve_left hne
      have hlast := congrArg List.getLast? hrest
      simp only [List.concat_eq_append, List.append_nil, ← List.append_assoc,
        List.getLast?_append, List.getLast?_singleton, Option.some_or, Option.some.injEq] at hlast
      have hdigit := hdigits d (by simp)
      rw [← hlast, not_isDigit_of_ascii (by decide) (by decide)] at hdigit
      cases hdigit
    · rw [List.concat_eq_append, ← List.append_assoc] at hrest
      exact ⟨x, spaces, digits, y, (List.append_inj' hrest rfl).1, hspaces, hne, hdigits⟩
  · rintro ⟨before, spaces, digits, after, rfl, h⟩
    exact ⟨[' ', '-', 'a', 'n', ' '] ++ before, spaces, digits, after ++ [' '], by simp, h⟩

/-- INTERNAL: what every filter is like. -/
theorem filter_plain {f : Text} (h : f ∈ config.filter rd) :
    f ≠ [] ∧ '\'' ∉ f ∧ ('-' ∉ f ∨ 'r' ∉ f.tail) := by
  unfold RenderConfig.filter at h
  have hrotate : ∀ r, "rotate=".toList ++ rd.str r ≠ [] ∧ '\'' ∉ "rotate=".toList ++ rd.str r ∧
      ('-' ∉ "rotate=".toList ++ rd.str r ∨ 'r' ∉ ("rotate=".toList ++ rd.str r).tail) := by
    intro r
    have hno : ∀ c : Char, c.isDigit = false → c ∉ ['.', 'e', '+', '-', 'i', 'n', 'f'] →
        c ∉ rd.str r := by
      intro c hdigit hother hmem
      rcases rd.plain r c hmem with hc | hc
      · rw [hdigit] at hc
        cases hc
      · exact hother hc
    refine ⟨by simp, ?_, .inr ?_⟩
    · simp [hno '\'' (by decide) (by decide)]
    · simp [hno 'r' (by decide) (by decide)]
  repeat' split at h
  all_goals
    first
    | (cases h; done)
    | (obtain rfl := Option.some.inj h; exact hrotate _)
    | (obtain rfl := Option.some.inj h; exact ⟨by decide, by decide, .inl (by decide)⟩)

/-- INTERNAL: where the preview command can have a rate. -/
theorem hasRate_previewCmd : HasRate cc (previewCmd rd config names) ↔
    HasRate cc names.previewFilePath ∨ HasRate cc config.extraoutputparams := by
  have hstart : ¬HasRate cc [' ', '-', 'i', ' '] := not_hasRate (.inr (by decide))
  have hvf : ¬HasRate cc [' ', '-', 'v', 'f', ' '] := not_hasRate (.inr (by decide))
  have hend : ¬HasRate cc [' ', '-', 'y'] := not_hasRate (.inr (by decide))
  have hbehind : HasRate cc (behindFilter config.previewOptions names.previewFilePath) ↔
      HasRate cc config.extraoutputparams ∨ HasRate cc names.previewFilePath := by
    have hform : behindFilter config.previewOptions names.previewFilePath =
        [' ', '-', 'a', 'n', ' '] ++ config.extraoutputparams ++ [' '] ++ '\'' ::
          (names.previewFilePath ++ '\'' :: [' ', '-', 'y']) := by
      simp [behindFilter, RenderConfig.previewOptions]
    rw [hform, hasRate_append_quote, hasRate_options, hasRate_append_quote]
    simp [hend]
  have hfilter : HasRate cc (filterParam (config.filter rd) ++
      behindFilter config.previewOptions names.previewFilePath) ↔
      HasRate cc config.extraoutputparams ∨ HasRate cc names.previewFilePath := by
    cases hf : config.filter rd with
    | none => exact hbehind
    | some f =>
      have hplain : ¬HasRate cc f := not_hasRate (filter_plain hf).2.2
      have hform : filterParam (some f) ++
          behindFilter config.previewOptions names.previewFilePath =
          [' ', '-', 'v', 'f', ' '] ++ '\'' :: (f ++ '\'' ::
            behindFilter config.previewOptions names.previewFilePath) := by
        simp [filterParam]
      rw [hform, hasRate_append_quote, hasRate_append_quote, hbehind]
      simp [hvf, hplain]
  have hform : previewCmd rd config names = [' ', '-', 'i', ' '] ++ '\'' ::
      (names.previewFilePath ++ '\'' :: (filterParam (config.filter rd) ++
        behindFilter config.previewOptions names.previewFilePath)) := by
    rw [previewCmd_eq, command_eq]
    simp
  rw [hform, hasRate_append_quote, hasRate_append_quote, hfilter]
  simp only [hstart, false_or]
  exact ⟨fun h => h.elim .inl fun h => h.elim .inr .inl, fun h => h.imp id .inl⟩

/-- There is no rate where none is written. -/
theorem parseFps_eq_none {cmd : Text} : parseFps cc cmd = some none ↔ ¬HasRate cc cmd := by
  rw [← firstGroup_rate_eq_none, parseFps]
  cases firstGroup cc.fpsPattern cmd with
  | none => simp
  | some digits => cases toInt cc.digits digits <;> simp

/-- What is read of a row of digits, when it is read, is not negative. -/
theorem toInt_nonneg {dg : Digits} {s : Text} {n : Int} (h : toInt dg s = some n) : 0 ≤ n := by
  obtain ⟨m, -, hm⟩ := Option.bind_eq_some_iff.mp h
  split at hm
  · cases hm
    exact Int.natCast_nonneg m
  · cases hm

/-- INTERNAL: the first rate of the main command is the one `render` writes. -/
theorem firstGroup_rate (n : Nat) : firstGroup cc.fpsPattern
    (command (" -r ".toList ++ Nat.toDigits 10 n) input filter options output) =
      some (Nat.toDigits 10 n) := by
  have hdigits : ∀ c ∈ Nat.toDigits 10 n, c.isDigit := fun _ => isDigit_of_mem_toDigits
  generalize hx : ['-', 'i'] ++ [' ', '\''] ++ input ++ '\'' :: (filterParam filter ++
    behindFilter options output) = x
  have hform : command (" -r ".toList ++ Nat.toDigits 10 n) input filter options output =
      ' ' :: '-' :: 'r' :: ([' '] ++ (Nat.toDigits 10 n ++ ' ' :: x)) := by
    rw [command_eq, hx]
    simp
  have hgroup : Pattern.run cc.isDigit (Pattern.matchAt []) (Nat.toDigits 10 n ++ ' ' :: x) =
      some (Nat.toDigits 10 n, [], ' ' :: x) := by
    refine Pattern.run_append Nat.toDigits_ne_nil
      (fun c hc => isDigit_of_isDigit (hdigits c hc)) (fun c hc => ?_) rfl
    cases hc
    exact not_isDigit_of_ascii (by decide) (by decide)
  have hmatch : Pattern.matchAt [.group cc.isDigit] (Nat.toDigits 10 n ++ ' ' :: x) =
      some ([Nat.toDigits 10 n], ' ' :: x) := by
    rw [Pattern.matchAt, hgroup]
    rfl
  have hspace : Pattern.run cc.isSpace (Pattern.matchAt [.group cc.isDigit])
      ([' '] ++ (Nat.toDigits 10 n ++ ' ' :: x)) =
      some ([' '], [Nat.toDigits 10 n], ' ' :: x) := by
    refine Pattern.run_append (List.cons_ne_nil _ _) (fun c hc => ?_) (fun c hc => ?_) hmatch
    · rw [List.mem_singleton.mp hc]
      exact cc.space
    · obtain ⟨d, ds, hd⟩ := List.exists_cons_of_ne_nil (Nat.toDigits_ne_nil (n := n) (b := 10))
      rw [hd] at hc hdigits
      obtain rfl : d = c := Option.some.inj hc
      obtain ⟨hlow, hhigh⟩ := isDigit_printable (hdigits d List.mem_cons_self)
      exact cc.printable d hlow hhigh
  have hblank : cc.fpsPattern.matchAt
      (' ' :: '-' :: 'r' :: ([' '] ++ (Nat.toDigits 10 n ++ ' ' :: x))) = none := by
    simp [CharClasses.fpsPattern, Pattern.matchAt, List.dropPrefix?]
  have hhere : cc.fpsPattern.matchAt
      ('-' :: 'r' :: ([' '] ++ (Nat.toDigits 10 n ++ ' ' :: x))) =
      some ([Nat.toDigits 10 n], ' ' :: x) := by
    have hdrop : ('-' :: 'r' :: ([' '] ++ (Nat.toDigits 10 n ++ ' ' :: x))).dropPrefix?
        ['-', 'r'] = some ([' '] ++ (Nat.toDigits 10 n ++ ' ' :: x)) :=
      List.dropPrefix?_append_of_beq _ (beq_self_eq_true ['-', 'r'])
    rw [CharClasses.fpsPattern, Pattern.matchAt, hdrop, Option.bind_some, Pattern.matchAt, hspace]
    rfl
  unfold firstGroup
  rw [hform, Pattern.find_cons hblank, Pattern.find_of_matchAt hhere]
  rfl

/-- **The frame rate** is read as it is when it is no negative number and fits. -/
theorem parseFps_iff (fps : Int) :
    parseFps cc (command (" -r ".toList ++ str fps) input filter options output) =
      some (some fps) ↔ 0 ≤ fps ∧ fps ≤ INT_MAX_VALUE := by
  by_cases hneg : fps < 0
  · constructor
    · intro h
      unfold parseFps at h
      split at h
      · cases h
      · obtain ⟨n, hn, heq⟩ := Option.map_eq_some_iff.mp h
        cases heq
        exact absurd (toInt_nonneg hn) (Int.not_le.mpr hneg)
    · rintro ⟨hpos, -⟩
      exact absurd hneg (Int.not_lt.mpr hpos)
  · obtain ⟨n, rfl⟩ := Int.eq_ofNat_of_zero_le (Int.not_lt.mp hneg)
    have hstr : str (n : Int) = Nat.toDigits 10 n := if_neg hneg
    unfold parseFps
    rw [hstr, firstGroup_rate]
    simp only [toInt, cc.digits.decimal_toDigits, Option.bind_some]
    by_cases hle : n ≤ INT_MAX_VALUE
    · simp [hle]
    · simp [hle]

/-! ## Both commands -/

/-- What is read of a command, part by part. -/
theorem parseFfmpegCmd_eq_some {cmd : Text} {fps : Option Int} {inputPath outputPath : Text} :
    parseFfmpegCmd cc cmd = some ⟨fps, inputPath, outputPath, filter⟩ ↔
      parseFps cc cmd = some fps ∧ (firstGroup (cc.optionPattern ['-', 'i']) cmd).getD [] =
        inputPath ∧ (lastQuoted cmd).getD [] = outputPath ∧
        firstGroup (cc.optionPattern ['-', 'v', 'f']) cmd = filter := by
  unfold parseFfmpegCmd
  cases parseFps cc cmd with
  | none => simp
  | some fps' => simp

/-- **The commands read back.** `parseFfmpegCmd` reads the main command as `render` wrote it
just when the rate is a number it can read, the names have no quotes, none is left open in the
options, and no filter stands in the options when there is none before them; the preview
command just when, besides, neither its path nor the extra options have a rate.
SOURCE: WebService.kt:166-200, timelapse.py:606-672, 728-742 -/
theorem renderCmd_parsed_iff (cc : CharClasses) (rd : Radians) (config : RenderConfig)
    (names : RenderNames) (fps : Int) :
    (parseFfmpegCmd cc (renderCmd rd config names fps) =
        some ⟨some fps, names.inputfiles, names.output, config.filter rd⟩ ↔
      (0 ≤ fps ∧ fps ≤ INT_MAX_VALUE) ∧ '\'' ∉ names.tempDir ∧ '\'' ∉ names.outfile ∧
        Closed (config.options ++ [' ']) ∧ (config.filter rd = none →
          ¬HasOption cc ['-', 'v', 'f'] (behindFilter config.options names.output))) ∧
    (parseFfmpegCmd cc (previewCmd rd config names) =
        some ⟨none, names.previewFilePath, names.previewFilePath, config.filter rd⟩ ↔
      (¬HasRate cc names.previewFilePath ∧ ¬HasRate cc config.extraoutputparams) ∧
        '\'' ∉ names.outDir ∧ '\'' ∉ names.outfile ∧ Closed (config.previewOptions ++ [' ']) ∧
        (config.filter rd = none → ¬HasOption cc ['-', 'v', 'f']
          (behindFilter config.previewOptions names.previewFilePath))) := by
  have hfilter : ∀ f ∈ config.filter rd, f ≠ [] ∧ '\'' ∉ f :=
    fun f hf => ⟨(filter_plain hf).1, (filter_plain hf).2.1⟩
  constructor
  · rw [renderCmd_eq, parseFfmpegCmd_eq_some, parseFps_iff]
    refine and_congr_right fun hfps => ?_
    have hinput : '\'' ∉ names.inputfiles ↔ '\'' ∉ names.tempDir := by
      simp [RenderNames.inputfiles]
    have houtput : '\'' ∉ names.output ↔ '\'' ∉ names.tempDir ∧ '\'' ∉ names.outfile := by
      simp [RenderNames.output]
    have hform : names.inputfiles = names.tempDir ++ "frame%6d.jp".toList ++ ['g'] := by
      simp [RenderNames.inputfiles]
    have hout : names.output = names.tempDir ++ names.outfile ++ ".mp".toList ++ ['4'] := by
      simp [RenderNames.output]
    have hne : names.inputfiles ≠ [] := by rw [hform]; simp
    -- the rate is a row of digits
    obtain ⟨n, rfl⟩ := Int.eq_ofNat_of_zero_le hfps.1
    have hrate : " -r ".toList ++ str (n : Int) = ' ' :: '-' :: 'r' :: ' ' :: Nat.toDigits 10 n := by
      simp [str]
    have hdigits : ∀ c : Char, c.isDigit = false → c ∉ Nat.toDigits 10 n := fun c hc hmem => by
      rw [isDigit_of_mem_toDigits hmem] at hc
      cases hc
    have hquote : '\'' ∉ " -r ".toList ++ str (n : Int) := by
      rw [hrate]
      simp [hdigits '\'' (by decide)]
    have hi : 'i' ∉ " -r ".toList ++ str (n : Int) := by
      rw [hrate]
      simp [hdigits 'i' (by decide)]
    rw [firstGroup_input_iff hi hne, hinput]
    refine and_congr_right fun htemp => ?_
    have hin := hinput.mpr htemp
    rw [lastQuoted_iff hquote hne hin hfilter hout (by decide), houtput,
      firstGroup_filter_iff hquote hin hform hfilter, and_iff_right htemp, and_assoc]
  · rw [previewCmd_eq, parseFfmpegCmd_eq_some, ← previewCmd_eq, parseFps_eq_none,
      hasRate_previewCmd, not_or, previewCmd_eq]
    refine and_congr_right fun _ => ?_
    have hpath : '\'' ∉ names.previewFilePath ↔ '\'' ∉ names.outDir ∧ '\'' ∉ names.outfile := by
      simp [RenderNames.previewFilePath]
    have hform : names.previewFilePath =
        names.outDir ++ (names.outfile ++ ".jp".toList) ++ ['g'] := by
      simp [RenderNames.previewFilePath]
    have hne : names.previewFilePath ≠ [] := by rw [hform]; simp
    rw [firstGroup_input_iff List.not_mem_nil hne]
    constructor
    · rintro ⟨hin, hlast, hfound⟩
      rw [lastQuoted_iff List.not_mem_nil hne hin hfilter hform (by decide)] at hlast
      rw [firstGroup_filter_iff List.not_mem_nil hin hform hfilter] at hfound
      exact ⟨(hpath.mp hin).1, (hpath.mp hin).2, hlast.2, hfound⟩
    · rintro ⟨hdir, hfile, hclosed, hnone⟩
      have hin := hpath.mpr ⟨hdir, hfile⟩
      exact ⟨hin, (lastQuoted_iff List.not_mem_nil hne hin hfilter hform (by decide)).mpr
        ⟨hin, hclosed⟩, (firstGroup_filter_iff List.not_mem_nil hin hform hfilter).mpr hnone⟩

/-- The classes of ASCII. -/
def asciiClasses : CharClasses where
  digits := Text.asciiDigits
  isSpace c := c.toNat ≤ 32
  space := rfl
  printable _ h _ := decide_eq_false (Nat.not_le.mpr h)

/-- An apostrophe in the name of the printed file gets into both commands: the name of the
output is read from the apostrophe on.
SOURCE: WebService.kt:191-194, timelapse.py:602-604 -/
theorem apostrophe_misread :
    ¬∀ (cc : CharClasses) (rd : Radians) (config : RenderConfig) (names : RenderNames) (fps : Int),
      (parseFfmpegCmd cc (renderCmd rd config names fps) =
        some ⟨some fps, names.inputfiles, names.output, config.filter rd⟩) ∧
      parseFfmpegCmd cc (previewCmd rd config names) =
        some ⟨none, names.previewFilePath, names.previewFilePath, config.filter rd⟩ := by
  intro h
  have hmain := (h asciiClasses ⟨fun _ => [], fun _ _ hc => (List.not_mem_nil hc).elim⟩
    ⟨23, "yuv420p".toList, [], 0, false, false⟩
    ⟨"/tmp/".toList, "/out/".toList, "Bob's part.gcode".toList, "20240101_1200".toList⟩ 30).1
  have hout := congrArg (Option.map ParsedCmd.outputPath) hmain
  exact absurd hout (by decide +kernel)

end Cream.Model
