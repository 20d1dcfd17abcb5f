import Cream.Library.Pattern

/-!
# Texts between quotes

`findAll '([^']+)'` on a text: the pattern takes the quotes in pairs, from the left, but a
quote right after an opening one opens anew. `quoting` follows this character by character:
it says what is open after a text, and `quoted` the texts that were closed. That it is what
the pattern finds is `findAll_quoted`. The other rules say what an appended text adds
(`quoted_append`).
-/

set_option autoImplicit false

namespace Cream.Library

namespace Quoting

def isQuoted (c : Char) : Bool := c ≠ '\''

/-- The pattern `'([^']+)'`. -/
def quotedPattern : Pattern := [.text ['\''], .group isQuoted, .text ['\'']]

/-- One character more: what is open, if anything, after it. -/
def next (open? : Option Text) (c : Char) : Option Text :=
  match open? with
  | none => if c = '\'' then some [] else none
  | some [] => if c = '\'' then some [] else some [c]
  | some (d :: w) => if c = '\'' then none else some (d :: w ++ [c])

/-- What is open after a text. -/
def quoting : Option Text → Text → Option Text
  | o, [] => o
  | o, c :: s => quoting (next o c) s

/-- The texts that are closed in a text. -/
def quoted : Option Text → Text → List Text
  | _, [] => []
  | some (d :: w), c :: s =>
    if c = '\'' then (d :: w) :: quoted none s else quoted (some (d :: w ++ [c])) s
  | some [], c :: s => quoted (next (some []) c) s
  | none, c :: s => quoted (next none c) s

/-- Nothing is open after a text. -/
def Closed (s : Text) : Prop := quoting none s = none

instance (s : Text) : Decidable (Closed s) := inferInstanceAs (Decidable (_ = _))

variable {o : Option Text} {w a b s : Text} {c : Char}

/-! ## Appended texts -/

/-- A text behind another is quoted as that leaves off. -/
theorem quoting_append (o : Option Text) (a b : Text) :
    quoting o (a ++ b) = quoting (quoting o a) b := by
  induction a generalizing o with
  | nil => rfl
  | cons c a ih => exact ih (next o c)

/-- **What an appended text closes** depends on what is open before it. -/
theorem quoted_append (o : Option Text) (a b : Text) :
    quoted o (a ++ b) = quoted o a ++ quoted (quoting o a) b := by
  induction a generalizing o with
  | nil => rfl
  | cons c a ih =>
    match o with
    | none => exact ih (next none c)
    | some [] => exact ih (next (some []) c)
    | some (d :: w) =>
      rw [List.cons_append, quoted, quoted]
      by_cases hc : c = '\''
      · rw [if_pos hc, if_pos hc, ih none, List.cons_append]
        have hnext : next (some (d :: w)) c = none := if_pos hc
        rw [quoting, hnext]
      · rw [if_neg hc, if_neg hc, ih]
        have hnext : next (some (d :: w)) c = some (d :: w ++ [c]) := if_neg hc
        rw [quoting, hnext]

/-- Outside of quotes a text without quotes changes nothing. -/
theorem quoting_none (h : '\'' ∉ s) : quoting none s = none ∧ quoted none s = [] := by
  induction s with
  | nil => exact ⟨rfl, rfl⟩
  | cons c s ih =>
    have hc : c ≠ '\'' := fun heq => h (heq ▸ List.mem_cons_self)
    have hnext : next none c = none := if_neg hc
    rw [quoting, quoted, hnext]
    exact ih fun hmem => h (List.mem_cons_of_mem _ hmem)

/-- In quotes a text without quotes stays open. -/
theorem quoting_some (w : Text) (h : '\'' ∉ s) :
    quoting (some w) s = some (w ++ s) ∧ quoted (some w) s = [] := by
  induction s generalizing w with
  | nil => exact ⟨by rw [quoting, List.append_nil], by rw [quoted]⟩
  | cons c s ih =>
    have hc : c ≠ '\'' := fun heq => h (heq ▸ List.mem_cons_self)
    have hs : '\'' ∉ s := fun hmem => h (List.mem_cons_of_mem _ hmem)
    have hnext : next (some w) c = some (w ++ [c]) := by
      cases w with
      | nil => exact if_neg hc
      | cons d w => exact if_neg hc
    obtain ⟨hopen, hclosed⟩ := ih (w ++ [c]) hs
    rw [List.append_assoc, List.singleton_append] at hopen
    refine ⟨by rw [quoting, hnext, hopen], ?_⟩
    cases w with
    | nil => rw [quoted, hnext, hclosed]
    | cons d w => rw [quoted, if_neg hc]; exact hclosed

/-- **A quoted text** is closed. -/
theorem quoted_quote (hw : w ≠ []) (h : '\'' ∉ w) (s : Text) :
    quoted none ('\'' :: w ++ '\'' :: s) = w :: quoted none s ∧
      quoting none ('\'' :: w ++ '\'' :: s) = quoting none s := by
  obtain ⟨hopen, hclosed⟩ := quoting_some [] h
  rw [List.nil_append] at hopen
  have hfirst : quoted none ('\'' :: w ++ '\'' :: s) = quoted (some []) (w ++ '\'' :: s) := rfl
  have hsecond : quoting none ('\'' :: w ++ '\'' :: s) = quoting (some []) (w ++ '\'' :: s) := rfl
  rw [hfirst, hsecond, quoted_append, quoting_append, hopen, hclosed, List.nil_append]
  cases w with
  | nil => exact absurd rfl hw
  | cons d w => exact ⟨by rw [quoted, if_pos rfl], by rw [quoting]; rfl⟩

/-- There are no quotes in what is open. -/
theorem notMem_next (ho : ∀ w, o = some w → '\'' ∉ w) (h : next o c = some w) : '\'' ∉ w := by
  by_cases hc : c = '\''
  · have hw : w = [] := by
      match o with
      | none => exact (Option.some.inj ((if_pos hc).symm.trans h)).symm
      | some [] => exact (Option.some.inj ((if_pos hc).symm.trans h)).symm
      | some (d :: w') =>
        have hnone : none = some w := (if_pos hc).symm.trans h
        cases hnone
    rw [hw]
    exact List.not_mem_nil
  · match o with
    | none =>
      have hnone : none = some w := (if_neg hc).symm.trans h
      cases hnone
    | some [] =>
      obtain rfl : [c] = w := Option.some.inj ((if_neg hc).symm.trans h)
      exact fun hmem => hc (List.mem_singleton.mp hmem).symm
    | some (d :: w') =>
      obtain rfl : d :: w' ++ [c] = w := Option.some.inj ((if_neg hc).symm.trans h)
      intro hmem
      rcases List.mem_append.mp hmem with hold | hnew
      · exact ho _ rfl hold
      · exact hc (List.mem_singleton.mp hnew).symm

/-- There are no quotes in a quoted text. -/
theorem notMem_quoted (ho : ∀ w, o = some w → '\'' ∉ w) {x : Text} (h : x ∈ quoted o s) :
    '\'' ∉ x := by
  induction s generalizing o with
  | nil => cases o <;> simp [quoted] at h
  | cons c s ih =>
    match o with
    | none => exact ih (fun w hw => notMem_next ho hw) h
    | some [] => exact ih (fun w hw => notMem_next ho hw) h
    | some (d :: w) =>
      rw [quoted] at h
      by_cases hc : c = '\''
      · rw [if_pos hc] at h
        rcases List.mem_cons.mp h with rfl | h
        · exact ho _ rfl
        · exact ih (fun w hw => absurd hw (Option.some_ne_none w).symm) h
      · rw [if_neg hc] at h
        refine ih (fun w' hw' => ?_) h
        exact notMem_next (c := c) ho (hw' ▸ if_neg hc)

/-! ## What the pattern finds -/

/-- What may stand in quotes has none. -/
theorem mem_isQuoted (h : '\'' ∉ w) : ∀ c ∈ w, isQuoted c = true := by
  intro c hc
  simp only [isQuoted, ne_eq, decide_not, Bool.not_eq_eq_eq_not, Bool.not_true,
    decide_eq_false_iff_not]
  rintro rfl
  exact h hc

/-- A text is some characters without quotes, and a quote after them if there is one. -/
theorem exists_quote (s : Text) :
    '\'' ∉ s ∨ ∃ a b, s = a ++ '\'' :: b ∧ '\'' ∉ a := by
  by_cases h : '\'' ∈ s
  · right
    obtain ⟨a, b, hs, ha⟩ := List.eq_append_cons_of_mem h
    exact ⟨a, b, hs, ha⟩
  · exact .inl h

/-- The pattern at a quote. -/
theorem matchAt_quote (hw : w ≠ []) (h : '\'' ∉ w) (s : Text) :
    quotedPattern.matchAt ('\'' :: (w ++ '\'' :: s)) = some ([w], s) := by
  have hrun : Pattern.run isQuoted (Pattern.matchAt [.text ['\'']]) (w ++ '\'' :: s) =
      some (w, [], s) := by
    refine Pattern.run_append hw (mem_isQuoted h) (fun c hc => ?_) ?_
    · cases hc
      rfl
    · simp [Pattern.matchAt, List.dropPrefix?]
  unfold quotedPattern
  rw [Pattern.matchAt]
  simp only [List.dropPrefix?, beq_self_eq_true, if_true, Option.bind_some]
  rw [Pattern.matchAt, hrun]
  rfl

/-- A match is two quotes with something between them. -/
theorem matchAt_eq_some {gs : List Text} {after : Text}
    (h : quotedPattern.matchAt s = some (gs, after)) :
    ∃ w, w ≠ [] ∧ '\'' ∉ w ∧ s = '\'' :: (w ++ '\'' :: after) ∧ gs = [w] := by
  obtain ⟨t, hs, hmatches⟩ := Pattern.matchAt_sound h
  unfold quotedPattern at hmatches
  cases hmatches with
  | text hmatches =>
    cases hmatches with
    | @group _ w _ _ _ hne hw hmatches =>
      cases hmatches with
      | text hmatches =>
        cases hmatches
        refine ⟨w, hne, fun hmem => ?_, by rw [hs]; simp, rfl⟩
        exact absurd (hw _ hmem) (by decide)

/-- A text with a quote at most has no match, and nothing is closed in it. -/
theorem find_of_count_le_one (h : s.count '\'' ≤ 1) :
    quotedPattern.find s = none ∧ quoted none s = [] := by
  constructor
  · rw [← Option.not_isSome_iff_eq_none, Pattern.find_isSome_iff]
    rintro ⟨before, t, after, gs, rfl, hmatches⟩
    obtain ⟨r, hr⟩ := Option.isSome_iff_exists.mp (Pattern.matchAt_complete hmatches [])
    obtain ⟨w, -, -, heq, -⟩ := matchAt_eq_some hr
    rw [List.append_nil] at heq
    rw [heq] at h
    simp only [List.append_assoc, List.cons_append, List.count_append, List.count_cons_self] at h
    omega
  · rcases exists_quote s with hs | ⟨a, b, rfl, ha⟩
    · exact (quoting_none hs).2
    · rw [List.count_append, List.count_eq_zero.mpr ha, List.count_cons_self] at h
      have hb : '\'' ∉ b := List.count_eq_zero.mp (by omega)
      rw [quoted_append, (quoting_none ha).1, (quoting_none ha).2, List.nil_append]
      exact (quoting_some [] hb).2

/-- The first match is the first text that is closed. -/
theorem find_quoted (s : Text) :
    (quotedPattern.find s = none ∧ quoted none s = []) ∨
      ∃ before w after, quotedPattern.find s = some (before, [w], after) ∧
        quoted none s = w :: quoted none after ∧ after.length < s.length := by
  induction hn : s.length using Nat.strongRecOn generalizing s with
  | ind n ih =>
    subst hn
    rcases exists_quote s with hs | ⟨a, b, rfl, ha⟩
    · exact .inl (find_of_count_le_one (by rw [List.count_eq_zero.mpr hs]; exact Nat.zero_le _))
    · have hfind : quotedPattern.find (a ++ '\'' :: b) =
          (quotedPattern.find ('\'' :: b)).map fun r => (a ++ r.1, r.2) :=
        Pattern.find_append ha
      have hquoted : quoted none (a ++ '\'' :: b) = quoted none ('\'' :: b) := by
        rw [quoted_append, (quoting_none ha).1, (quoting_none ha).2, List.nil_append]
      rcases exists_quote b with hb | ⟨w, b, rfl, hw⟩
      · refine .inl (find_of_count_le_one ?_)
        rw [List.count_append, List.count_eq_zero.mpr ha, List.count_cons_self,
          List.count_eq_zero.mpr hb]
      · cases w with
        | nil =>
          -- the second quote opens anew
          rw [List.nil_append] at hfind hquoted ⊢
          have hnone : quotedPattern.matchAt ('\'' :: '\'' :: b) = none := by
            by_contra hsome
            obtain ⟨⟨gs, after⟩, hr⟩ := Option.ne_none_iff_exists'.mp hsome
            obtain ⟨w, hne, hw, heq, -⟩ := matchAt_eq_some hr
            cases w with
            | nil => exact hne rfl
            | cons d w =>
              rw [List.cons_append, List.cons.injEq, List.cons.injEq] at heq
              exact hw (heq.2.1 ▸ List.mem_cons_self)
          have hlt : ('\'' :: b).length < (a ++ '\'' :: '\'' :: b).length := by
            simp only [List.length_append, List.length_cons]
            omega
          have hskip := Pattern.find_cons hnone
          have hsame : quoted none ('\'' :: '\'' :: b) = quoted none ('\'' :: b) := rfl
          rcases ih _ hlt ('\'' :: b) rfl with ⟨hf, hq⟩ | ⟨before, w, after, hf, hq, hafter⟩
          · refine .inl ⟨?_, by rw [hquoted, hsame, hq]⟩
            refine hfind.trans ?_
            rw [hf] at hskip
            exact congrArg _ hskip
          · refine .inr ⟨a ++ '\'' :: before, w, after, ?_, by rw [hquoted, hsame, hq],
              hafter.trans hlt⟩
            refine hfind.trans ?_
            rw [hf] at hskip
            exact congrArg _ hskip
        | cons d w =>
          refine .inr ⟨a, d :: w, b, ?_, ?_, ?_⟩
          · have hmatch := Pattern.find_of_matchAt (matchAt_quote (List.cons_ne_nil d w) hw b)
            refine hfind.trans ((congrArg _ hmatch).trans ?_)
            simp
          · rw [hquoted]
            exact (quoted_quote (List.cons_ne_nil d w) hw b).1
          · simp only [List.length_append, List.length_cons]
            omega

/-- **What `findAll` finds** with the pattern. -/
theorem findAll_quoted (s : Text) :
    quotedPattern.findAll s = (quoted none s).map fun w => [w] := by
  have hall : ∀ fuel (s : Text), s.length ≤ fuel →
      quotedPattern.findAllFrom fuel s = (quoted none s).map fun w => [w] := by
    intro fuel
    induction fuel with
    | zero =>
      intro s hs
      obtain rfl : s = [] := List.length_eq_zero_iff.mp (Nat.le_zero.mp hs)
      rfl
    | succ fuel ih =>
      intro s hs
      rw [Pattern.findAllFrom]
      rcases find_quoted s with ⟨hf, hq⟩ | ⟨before, w, after, hf, hq, hlt⟩
      · rw [hf, hq]
        rfl
      · rw [hf, hq, List.map_cons, ← ih after (by omega)]
  exact hall s.length s le_rfl

end Quoting

end Cream.Library
