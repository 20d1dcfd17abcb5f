import Cream.Library.Text

/-!
# Patterns

The regular expressions programs search configuration and command texts with: a sequence of
fixed texts, single characters of a class and runs of one or more characters of a class. A
run takes as many characters as it can and gives back what the rest of the pattern needs, as
a backtracking matcher does; `find` takes the leftmost place. `matchAt_sound` says what a
match is made of, `find_isSome_iff` that a text that has a match is found to have one, and
`run_maximal` that a run at the end of a pattern takes all it can.
-/

set_option autoImplicit false

namespace Cream.Library

inductive Piece where
  /-- these characters -/
  | text (t : Text)
  /-- `[…]`: one character of the class -/
  | one (accepts : Char → Bool)
  /-- `[…]+` -/
  | run (accepts : Char → Bool)
  /-- `([…]+)` -/
  | group (accepts : Char → Bool)

abbrev Pattern := List Piece

namespace Pattern

/-- One or more accepted characters, as many as leave `next` a match: the run, and what
`next` says after it. -/
def run {β : Type} (accepts : Char → Bool) (next : Text → Option β) : Text → Option (Text × β)
  | [] => none
  | c :: s =>
    if accepts c then
      ((run accepts next s).map fun (w, r) => (c :: w, r)).or ((next s).map fun r => ([c], r))
    else none

/-- A match at the start of a text: the groups, and the text after the match. -/
def matchAt : Pattern → Text → Option (List Text × Text)
  | [], s => some ([], s)
  | .text t :: ps, s => (s.dropPrefix? t).bind (matchAt ps)
  | .one _ :: _, [] => none
  | .one accepts :: ps, c :: s => if accepts c then matchAt ps s else none
  | .run accepts :: ps, s => (run accepts (matchAt ps) s).map fun (_, r) => r
  | .group accepts :: ps, s => (run accepts (matchAt ps) s).map fun (w, gs, rest) => (w :: gs, rest)

/-- `Matcher.find`: the text before the leftmost match, its groups, and the text after it. -/
def find (ps : Pattern) (s : Text) : Option (Text × List Text × Text) :=
  match matchAt ps s, s with
  | some r, _ => some ([], r)
  | none, [] => none
  | none, c :: s => (find ps s).map fun (before, r) => (c :: before, r)

/-- The groups of the successive matches, at most `fuel` of them, of a pattern that matches no
empty text. -/
def findAllFrom (ps : Pattern) : Nat → Text → List (List Text)
  | 0, _ => []
  | fuel + 1, s =>
    match find ps s with
    | none => []
    | some (_, gs, after) => gs :: findAllFrom ps fuel after

/-- `Regex.findAll`, of a pattern that matches no empty text. -/
def findAll (ps : Pattern) (s : Text) : List (List Text) := findAllFrom ps s.length s

/-- What a pattern matches, with the groups. -/
inductive Matches : Pattern → Text → List Text → Prop
  | nil : Matches [] [] []
  | text {t s : Text} {ps : Pattern} {gs : List Text} (h : Matches ps s gs) :
      Matches (.text t :: ps) (t ++ s) gs
  | one {accepts : Char → Bool} {c : Char} {s : Text} {ps : Pattern} {gs : List Text}
      (hc : accepts c) (h : Matches ps s gs) : Matches (.one accepts :: ps) (c :: s) gs
  | run {accepts : Char → Bool} {w s : Text} {ps : Pattern} {gs : List Text} (hne : w ≠ [])
      (hw : ∀ c ∈ w, accepts c) (h : Matches ps s gs) : Matches (.run accepts :: ps) (w ++ s) gs
  | group {accepts : Char → Bool} {w s : Text} {ps : Pattern} {gs : List Text} (hne : w ≠ [])
      (hw : ∀ c ∈ w, accepts c) (h : Matches ps s gs) :
      Matches (.group accepts :: ps) (w ++ s) (w :: gs)

variable {β : Type} {accepts : Char → Bool} {next : Text → Option β}

/-- What a run is made of. -/
theorem run_sound {s w : Text} {r : β} (h : run accepts next s = some (w, r)) :
    w ≠ [] ∧ (∀ c ∈ w, accepts c) ∧ ∃ rest, s = w ++ rest ∧ next rest = some r := by
  induction s generalizing w with
  | nil => cases h
  | cons c s ih =>
    unfold run at h
    split at h
    · next hc =>
      rw [Option.or_eq_some_iff] at h
      rcases h with h | ⟨-, h⟩
      · obtain ⟨⟨w', r'⟩, hrun, heq⟩ := Option.map_eq_some_iff.mp h
        cases heq
        obtain ⟨-, hall, rest, hs, hnext⟩ := ih hrun
        refine ⟨List.cons_ne_nil _ _, ?_, rest, by rw [hs, List.cons_append], hnext⟩
        intro d hd
        rcases List.mem_cons.mp hd with rfl | hd
        · exact hc
        · exact hall d hd
      · obtain ⟨r', hnext, heq⟩ := Option.map_eq_some_iff.mp h
        cases heq
        refine ⟨List.cons_ne_nil _ _, ?_, s, rfl, hnext⟩
        intro d hd
        rw [List.mem_singleton.mp hd]
        exact hc
    · cases h

/-- **What a match is made of.** -/
theorem matchAt_sound {ps : Pattern} {s : Text} {gs : List Text} {rest : Text}
    (h : matchAt ps s = some (gs, rest)) : ∃ t, s = t ++ rest ∧ Matches ps t gs := by
  induction ps generalizing s gs with
  | nil =>
    cases h
    exact ⟨[], rfl, .nil⟩
  | cons p ps ih =>
    cases p with
    | text t =>
      obtain ⟨s', hdrop, hmatch⟩ := Option.bind_eq_some_iff.mp h
      obtain ⟨t', hs, ht⟩ := List.dropPrefix?_eq_some_iff.mp hdrop
      obtain ⟨u, hu, hmatches⟩ := ih hmatch
      exact ⟨t ++ u, by rw [hs, eq_of_beq ht, hu, List.append_assoc], .text hmatches⟩
    | one accepts =>
      cases s with
      | nil => cases h
      | cons c s =>
        simp only [matchAt] at h
        split at h
        · next hc =>
          obtain ⟨u, hu, hmatches⟩ := ih h
          exact ⟨c :: u, by rw [hu, List.cons_append], .one hc hmatches⟩
        · cases h
    | run accepts =>
      obtain ⟨⟨w, r⟩, hrun, heq⟩ := Option.map_eq_some_iff.mp h
      obtain ⟨hne, hw, s', hs, hmatch⟩ := run_sound hrun
      cases heq
      obtain ⟨u, hu, hmatches⟩ := ih hmatch
      exact ⟨w ++ u, by rw [hs, hu, List.append_assoc], .run hne hw hmatches⟩
    | group accepts =>
      obtain ⟨⟨w, gs', r⟩, hrun, heq⟩ := Option.map_eq_some_iff.mp h
      obtain ⟨hne, hw, s', hs, hmatch⟩ := run_sound hrun
      cases heq
      obtain ⟨u, hu, hmatches⟩ := ih hmatch
      exact ⟨w ++ u, by rw [hs, hu, List.append_assoc], .group hne hw hmatches⟩

/-- A run finds its way when there is one. -/
theorem run_complete {w s : Text} (hne : w ≠ []) (hw : ∀ c ∈ w, accepts c)
    (hnext : (next s).isSome) : (run accepts next (w ++ s)).isSome := by
  induction w with
  | nil => exact absurd rfl hne
  | cons c w ih =>
    rw [List.cons_append, run, if_pos (hw c List.mem_cons_self), Option.isSome_or]
    cases w with
    | nil => simp [hnext]
    | cons d w =>
      have hlong := ih (List.cons_ne_nil _ _) fun e he => hw e (List.mem_cons_of_mem _ he)
      rw [Option.isSome_map, hlong, Bool.true_or]

/-- **A text with a match** at its start is matched. -/
theorem matchAt_complete {ps : Pattern} {t : Text} {gs : List Text} (h : Matches ps t gs)
    (rest : Text) : (matchAt ps (t ++ rest)).isSome := by
  induction h with
  | nil => rfl
  | @text t s ps gs h ih =>
    have hdrop : (t ++ (s ++ rest)).dropPrefix? t = some (s ++ rest) :=
      List.dropPrefix?_append_of_beq _ (beq_self_eq_true t)
    rw [List.append_assoc, matchAt, hdrop]
    exact ih
  | one hc h ih =>
    rw [List.cons_append, matchAt, if_pos hc]
    exact ih
  | run hne hw h ih =>
    rw [List.append_assoc, matchAt, Option.isSome_map]
    exact run_complete hne hw ih
  | group hne hw h ih =>
    rw [List.append_assoc, matchAt, Option.isSome_map]
    exact run_complete hne hw ih

/-- A place where the pattern does not match is passed over. -/
theorem find_cons {ps : Pattern} {c : Char} {s : Text} (h : matchAt ps (c :: s) = none) :
    find ps (c :: s) = (find ps s).map fun (before, r) => (c :: before, r) := by
  rw [find.eq_def, h]

/-- A text is passed over when no match starts in it. -/
theorem find_skip {ps : Pattern} {a s : Text}
    (h : ∀ u, u ≠ [] → u <:+ a → matchAt ps (u ++ s) = none) :
    find ps (a ++ s) = (find ps s).map fun (before, r) => (a ++ before, r) := by
  induction a with
  | nil => exact Option.map_id'.symm
  | cons c a ih =>
    have hrest := ih fun u hu hsuffix => h u hu (hsuffix.trans (List.suffix_cons c a))
    have hc : matchAt ps (c :: (a ++ s)) = none :=
      h (c :: a) (List.cons_ne_nil _ _) (List.suffix_refl _)
    rw [List.cons_append, find_cons hc, hrest, Option.map_map]
    rfl

/-- A found match, in its place. -/
theorem find_eq_some {ps : Pattern} {s before after : Text} {gs : List Text}
    (h : find ps s = some (before, gs, after)) :
    ∃ t, s = before ++ t ∧ matchAt ps t = some (gs, after) := by
  induction s generalizing before with
  | nil =>
    unfold find at h
    split at h
    · next r hr =>
      cases h
      exact ⟨[], rfl, hr⟩
    · cases h
    · next heq =>
      cases heq
  | cons c s ih =>
    unfold find at h
    split at h
    · next r hr =>
      cases h
      exact ⟨c :: s, rfl, hr⟩
    · next heq => cases heq
    · next heq =>
      cases heq
      obtain ⟨⟨before', r⟩, hfind, heq⟩ := Option.map_eq_some_iff.mp h
      cases heq
      obtain ⟨t, hs, ht⟩ := ih hfind
      exact ⟨t, by rw [hs, List.cons_append], ht⟩

/-- **A match is found** in just the texts that have one. -/
theorem find_isSome_iff {ps : Pattern} {s : Text} :
    (find ps s).isSome ↔ ∃ before t after gs, s = before ++ t ++ after ∧ Matches ps t gs := by
  constructor
  · intro h
    obtain ⟨⟨before, gs, after⟩, hfind⟩ := Option.isSome_iff_exists.mp h
    obtain ⟨t, hs, ht⟩ := find_eq_some hfind
    obtain ⟨u, hu, hmatches⟩ := matchAt_sound ht
    exact ⟨before, u, after, gs, by rw [hs, hu, List.append_assoc], hmatches⟩
  · rintro ⟨before, t, after, gs, rfl, hmatches⟩
    have hhere : (find ps (t ++ after)).isSome := by
      obtain ⟨r, hr⟩ := Option.isSome_iff_exists.mp (matchAt_complete hmatches after)
      rw [find.eq_def, hr]
      rfl
    induction before with
    | nil => exact hhere
    | cons c before ih =>
      rw [List.cons_append, List.cons_append, find.eq_def]
      cases matchAt ps (c :: (before ++ t ++ after)) with
      | some r => rfl
      | none =>
        simp only [Option.isSome_map]
        exact ih

/-- **A run takes a row** of accepted characters up to one that is not. -/
theorem run_append {w s : Text} {r : β} (hne : w ≠ []) (hw : ∀ c ∈ w, accepts c)
    (hs : ∀ c ∈ s.head?, accepts c = false) (hnext : next s = some r) :
    run accepts next (w ++ s) = some (w, r) := by
  induction w with
  | nil => exact absurd rfl hne
  | cons c w ih =>
    have hc := hw c List.mem_cons_self
    rw [List.cons_append, run, if_pos hc]
    cases w with
    | nil =>
      have hstop : run accepts next s = none := by
        cases s with
        | nil => rfl
        | cons d s => rw [run, if_neg (by simp [hs d rfl])]
      rw [List.nil_append, hstop, hnext]
      rfl
    | cons d w =>
      rw [ih (List.cons_ne_nil _ _) fun e he => hw e (List.mem_cons_of_mem _ he)]
      rfl

/-- **A pattern that starts with a text** is not found over what lacks its first character. -/
theorem find_append {c : Char} {t a s : Text} {ps : Pattern} (hc : c ∉ a) :
    find (.text (c :: t) :: ps) (a ++ s) =
      (find (.text (c :: t) :: ps) s).map fun (before, r) => (a ++ before, r) := by
  induction a with
  | nil =>
    rw [List.nil_append]
    exact Option.map_id'.symm
  | cons d a ih =>
    have hd : d ≠ c := fun h => hc (h ▸ List.mem_cons_self)
    have hmatch : matchAt (.text (c :: t) :: ps) (d :: (a ++ s)) = none := by
      simp [matchAt, List.dropPrefix?, hd]
    rw [List.cons_append, find.eq_def, hmatch]
    simp only [ih fun h => hc (List.mem_cons_of_mem _ h), Option.map_map]
    rfl

/-- A match at the start is found. -/
theorem find_of_matchAt {ps : Pattern} {s : Text} {r : List Text × Text}
    (h : matchAt ps s = some r) : find ps s = some ([], r) := by
  unfold find
  rw [h]

end Pattern

end Cream.Library
