import Cream.Library.Text

/-!
# File paths

The paths of `java.io.File` as Android's `UnixFileSystem` makes them, and what they name. A
path is a text; `normalize` and `child` are the constructors of `File`. Its segments are
`components`, and `canonical` is the path with the segments `.` and `..` carried out.
`components_child` says what a child is made of, `canonical_child` where it lies, and
`inside_iff` when a path that starts with a directory stays in it, by what `reduce` leaves of
the `..` segments after it.
-/

set_option autoImplicit false

namespace Cream.Library.FilePath

/-- The loop of `UnixFileSystem.normalize`: of slashes in a row the first one is kept. -/
def squeeze (afterSlash : Bool) : Text → Text
  | [] => []
  | c :: s =>
    if c = '/' then if afterSlash then squeeze true s else c :: squeeze true s
    else c :: squeeze false s

/-- `UnixFileSystem.normalize`. -/
def normalize (pathname : Text) : Text :=
  let normalized := squeeze false pathname
  if pathname.getLast? = some '/' ∧ 1 < pathname.length then normalized.dropLast else normalized

/-- `UnixFileSystem.resolve`. -/
def resolve (parent child : Text) : Text :=
  if child = [] ∨ child = ['/'] then parent
  else if child.head? = some '/' then
    if parent = ['/'] then child else parent ++ child
  else if parent = ['/'] then parent ++ child else parent ++ '/' :: child

/-- `File(parent, name)`. -/
def child (parent name : Text) : Text :=
  if parent = [] then normalize name else resolve parent (normalize name)

/-- `File.name`. -/
def name (path : Text) : Text := path.rtakeWhile (· != '/')

/-- `File.getParent`; a path without a slash has none, and neither has the root. -/
def parent (path : Text) : Option Text :=
  let upToSlash := path.rdropWhile (· != '/')
  if upToSlash = [] then none
  else if upToSlash = ['/'] then if 1 < path.length then some ['/'] else none
  else some upToSlash.dropLast

/-- The segments of a path. -/
def components (path : Text) : List Text := (path.splitOn '/').filter (· ≠ [])

/-- The directory a segment leads to. -/
def enter (cwd : List Text) (segment : Text) : List Text :=
  if segment = ['.'] then cwd else if segment = ['.', '.'] then cwd.dropLast else cwd ++ [segment]

/-- The directories and the name an absolute path leads through when no link is on the way. -/
def canonical (path : Text) : List Text := (components path).foldl enter []

/-- A path in or below a directory. -/
def Inside (directory path : Text) : Prop := canonical directory <+: canonical path

instance (directory path : Text) : Decidable (Inside directory path) :=
  inferInstanceAs (Decidable (_ <+: _))

/-- What is left of a relative path: how many directories it goes up, and the names after. -/
def reduce (segments : List Text) : Nat × List Text :=
  segments.foldl (fun r segment =>
    if segment = ['.'] then r
    else if segment = ['.', '.'] then
      if r.2 = [] then (r.1 + 1, []) else (r.1, r.2.dropLast)
    else (r.1, r.2 ++ [segment])) (0, [])

/-- Segments that do not leave a directory for good: they go up no further than it started, or
the names after that lead back. -/
def Stays (directory : Text) (segments : List Text) : Prop :=
  (canonical directory).drop ((canonical directory).length - (reduce segments).1) <+:
    (reduce segments).2

variable {a b s t dir rel : Text}

/-! ## Segments -/

/-- The segments of two texts with a slash between them. -/
theorem components_append (a b : Text) :
    components (a ++ '/' :: b) = components a ++ components b := by
  unfold components
  rw [List.splitOn_append_cons_self, List.filter_append]

/-- An empty path has no component. -/
@[simp] theorem components_nil : components [] = [] := rfl

/-- Nor does a slash make one. -/
@[simp] theorem components_slash (s : Text) : components ('/' :: s) = components s := by
  have h := components_append [] s
  rwa [List.nil_append, components_nil, List.nil_append] at h

/-- A text without slashes is a segment. -/
theorem components_of_notMem (hne : s ≠ []) (hs : '/' ∉ s) : components s = [s] := by
  unfold components
  rw [List.splitOn_eq_singleton hs]
  simp [hne]

/-- **Paths by their segments**: a path is empty, starts with a slash, is a segment, or is a
segment with a slash and a path after it. -/
theorem induction_on {P : Text → Prop} (nil : P []) (slash : ∀ s, P s → P ('/' :: s))
    (segment : ∀ w, w ≠ [] → '/' ∉ w → P w)
    (cons : ∀ w s, w ≠ [] → '/' ∉ w → P s → P (w ++ '/' :: s)) (s : Text) : P s := by
  have hbounded : ∀ n, ∀ s : Text, s.length ≤ n → P s := by
    intro n
    induction n with
    | zero =>
      intro s hs
      rw [List.eq_nil_of_length_eq_zero (Nat.le_zero.mp hs)]
      exact nil
    | succ n ih =>
      intro s hs
      by_cases hmem : '/' ∈ s
      · obtain ⟨w, r, rfl, hw⟩ := List.eq_append_cons_of_mem hmem
        rw [List.length_append, List.length_cons] at hs
        cases w with
        | nil => exact slash r (ih r (by simp at hs; omega))
        | cons c w => exact cons (c :: w) r (List.cons_ne_nil _ _) hw (ih r (by omega))
      · by_cases hne : s = []
        · rw [hne]
          exact nil
        · exact segment s hne hmem
  exact hbounded s.length s le_rfl

/-- Segments are not empty and have no slash. -/
theorem mem_components {w : Text} (h : w ∈ components s) : w ≠ [] ∧ '/' ∉ w := by
  induction s using induction_on with
  | nil => cases h
  | slash s ih => exact ih (by rwa [components_slash] at h)
  | segment v hne hv =>
    rw [components_of_notMem hne hv, List.mem_singleton] at h
    rw [h]
    exact ⟨hne, hv⟩
  | cons v s hne hv ih =>
    rw [components_append, components_of_notMem hne hv, List.singleton_append,
      List.mem_cons] at h
    rcases h with rfl | h
    · exact ⟨hne, hv⟩
    · exact ih h

/-! ## The constructors of `File` -/

/-- What is no slash is kept. -/
theorem squeeze_append (hne : s ≠ []) (hs : '/' ∉ s) (afterSlash : Bool) (t : Text) :
    squeeze afterSlash (s ++ t) = s ++ squeeze false t := by
  induction s generalizing afterSlash with
  | nil => exact absurd rfl hne
  | cons c s ih =>
    have hc : c ≠ '/' := fun h => hs (h ▸ List.mem_cons_self)
    rw [List.cons_append, squeeze, if_neg hc]
    cases s with
    | nil => rfl
    | cons d s =>
      rw [ih (List.cons_ne_nil _ _) (fun h => hs (List.mem_cons_of_mem _ h)) false]
      rfl

/-- Slashes in a row part no other segments than one. -/
theorem components_squeeze (s : Text) (afterSlash : Bool) :
    components (squeeze afterSlash s) = components s := by
  induction s using induction_on generalizing afterSlash with
  | nil => rfl
  | slash s ih =>
    cases afterSlash with
    | true => simpa [squeeze] using ih true
    | false => simpa [squeeze] using ih true
  | segment w hne hw =>
    have h := squeeze_append hne hw afterSlash []
    rw [List.append_nil] at h
    rw [h, squeeze, List.append_nil]
  | cons w s hne hw ih =>
    have hslash : squeeze false ('/' :: s) = '/' :: squeeze true s := by simp [squeeze]
    rw [squeeze_append hne hw, hslash, components_append, components_append, ih]

/-- A slash at the end starts no segment. -/
theorem components_dropLast (h : s.getLast? = some '/') : components s.dropLast = components s := by
  obtain ⟨t, rfl⟩ : ∃ t, s = t ++ ['/'] := List.getLast?_eq_some_iff.mp h
  rw [List.dropLast_concat, components_append, components_nil, List.append_nil]

/-- A slash at the end is kept, unless it is one of a row that was begun before. -/
theorem getLast?_squeeze (h : s.getLast? = some '/') (afterSlash : Bool) :
    (squeeze afterSlash s).getLast? = some '/' ∨ afterSlash ∧ squeeze afterSlash s = [] := by
  induction s generalizing afterSlash with
  | nil => cases h
  | cons c s ih =>
    cases s with
    | nil =>
      obtain rfl : c = '/' := Option.some.inj h
      cases afterSlash with
      | true => exact .inr ⟨rfl, by simp [squeeze]⟩
      | false => exact .inl (by simp [squeeze])
    | cons d s =>
      have hlast : (d :: s).getLast? = some '/' := by rwa [List.getLast?_cons_cons] at h
      have hkept : ∀ e, ∀ t : Text, t.getLast? = some '/' → (e :: t).getLast? = some '/' := by
        intro e t ht
        rw [List.getLast?_cons, ht]
        rfl
      by_cases hc : c = '/'
      · subst hc
        have hinner := ih hlast true
        cases afterSlash with
        | true => simpa [squeeze] using hinner
        | false =>
          rw [squeeze, if_pos rfl, if_neg Bool.false_ne_true]
          rcases hinner with hinner | ⟨-, hinner⟩
          · exact .inl (hkept _ _ hinner)
          · exact .inl (by rw [hinner]; rfl)
      · rw [squeeze, if_neg hc]
        rcases ih hlast false with hinner | ⟨hfalse, -⟩
        · exact .inl (hkept _ _ hinner)
        · cases hfalse

/-- **Normalizing a path** changes none of its segments. -/
@[simp] theorem components_normalize (s : Text) : components (normalize s) = components s := by
  unfold normalize
  dsimp only
  split
  · next h =>
    rcases getLast?_squeeze h.1 false with hlast | ⟨hfalse, -⟩
    · rw [components_dropLast hlast, components_squeeze]
    · cases hfalse
  · exact components_squeeze s false

/-- The components of a path that is resolved against another follow those of it. -/
theorem components_resolve (parent name : Text) :
    components (resolve parent name) = components parent ++ components name := by
  unfold resolve
  split
  · next h =>
    rcases h with rfl | rfl
    · rw [components_nil, List.append_nil]
    · rw [components_slash, components_nil, List.append_nil]
  · split
    · next hslash =>
      obtain ⟨r, rfl⟩ : ∃ r, name = '/' :: r := List.head?_eq_some_iff.mp hslash
      split
      · next hparent =>
        rw [hparent, components_slash, components_slash, components_nil, List.nil_append]
      · rw [components_append, components_slash]
    · split
      · next hparent =>
        rw [hparent, List.singleton_append, components_slash, components_slash, components_nil,
          List.nil_append]
      · exact components_append parent name

/-- **The segments of a child**: a name that looks absolute is below the parent too. -/
@[simp] theorem components_child (parent name : Text) :
    components (child parent name) = components parent ++ components name := by
  unfold child
  split
  · next h => rw [h, components_normalize, components_nil, List.nil_append]
  · rw [components_resolve, components_normalize]

/-- What the segments after the last one that goes up leave of the directory they start in. -/
theorem foldl_enter (cwd segments : List Text) :
    segments.foldl enter cwd =
      cwd.take (cwd.length - (reduce segments).1) ++ (reduce segments).2 := by
  induction segments using List.reverseRecOn with
  | nil => simp [reduce]
  | append_singleton segments segment ih =>
    have hreduce : reduce (segments ++ [segment]) =
        if segment = ['.'] then reduce segments
        else if segment = ['.', '.'] then
          if (reduce segments).2 = [] then ((reduce segments).1 + 1, [])
          else ((reduce segments).1, (reduce segments).2.dropLast)
        else ((reduce segments).1, (reduce segments).2 ++ [segment]) := by
      rw [reduce, List.foldl_append]
      rfl
    rw [List.foldl_append, ih, List.foldl_cons, List.foldl_nil, hreduce, enter]
    split
    · rfl
    · split
      · split
        · next hnone =>
          rw [hnone, List.append_nil, List.append_nil, List.dropLast_eq_take, List.take_take,
            List.length_take]
          congr 1
          omega
        · next hsome => rw [List.dropLast_append_of_ne_nil hsome]
      · rw [List.append_assoc]

/-- **When a path stays in a directory**: what follows the directory goes up no further than it
started, or the names after that lead back. -/
theorem inside_iff {path : Text} {segments : List Text}
    (h : components path = components dir ++ segments) : Inside dir path ↔ Stays dir segments := by
  have hcanonical : canonical path = segments.foldl enter (canonical dir) := by
    rw [canonical, h, List.foldl_append]
    rfl
  unfold Inside Stays
  rw [hcanonical, foldl_enter]
  nth_rewrite 1 [← List.take_append_drop
    ((canonical dir).length - (reduce segments).1) (canonical dir)]
  exact List.prefix_append_right_inj _

/-- A resolved path begins with its parent. -/
theorem resolve_isPrefix (parent name : Text) : parent <+: resolve parent name := by
  rw [resolve]
  split
  · exact List.prefix_rfl
  · split
    · next hslash =>
      obtain ⟨r, hr⟩ : ∃ r, name = '/' :: r := List.head?_eq_some_iff.mp hslash
      split
      · next hroot =>
        rw [hr, hroot]
        exact ⟨r, rfl⟩
      · exact List.prefix_append _ _
    · split
      · exact List.prefix_append _ _
      · exact List.prefix_append _ _

/-- What a path has more than the directory it is resolved in starts with a slash. -/
theorem resolve_cases (hroot : dir ≠ ['/']) (rel : Text) :
    resolve dir rel = dir ∨ ∃ r, resolve dir rel = dir ++ '/' :: r := by
  rw [resolve, if_neg hroot, if_neg hroot]
  split
  · exact .inl rfl
  · split
    · next hslash =>
      obtain ⟨r, hr⟩ : ∃ r, rel = '/' :: r := List.head?_eq_some_iff.mp hslash
      exact .inr ⟨r, by rw [hr]⟩
    · exact .inr ⟨rel, rfl⟩

/-- A child is its directory, or a path within it. -/
theorem child_cases (hdir : dir ≠ []) (hroot : dir ≠ ['/']) (rel : Text) :
    child dir rel = dir ∨ ∃ r, child dir rel = dir ++ '/' :: r := by
  rw [child, if_neg hdir]
  exact resolve_cases hroot _

/-- Its path begins with that of the directory. -/
theorem child_isPrefix (hdir : dir ≠ []) (rel : Text) : dir <+: child dir rel := by
  rw [child, if_neg hdir]
  exact resolve_isPrefix dir _

/-! ## Normal paths -/

/-- Without doubled slashes a path is no longer. -/
theorem length_squeeze_le (s : Text) (afterSlash : Bool) :
    (squeeze afterSlash s).length ≤ s.length := by
  induction s generalizing afterSlash with
  | nil => exact le_rfl
  | cons c s ih =>
    have htrue := ih true
    have hfalse := ih false
    unfold squeeze
    split
    · split
      · rw [List.length_cons]
        omega
      · rw [List.length_cons, List.length_cons]
        omega
    · rw [List.length_cons, List.length_cons]
      omega

/-- What follows in a text that squeezing leaves as it is. -/
theorem squeeze_suffix (afterSlash : Bool) (h : squeeze afterSlash (a ++ b) = a ++ b) :
    ∃ afterSlash, squeeze afterSlash b = b := by
  induction a generalizing afterSlash with
  | nil => exact ⟨afterSlash, h⟩
  | cons c a ih =>
    rw [List.cons_append] at h
    have hlength := length_squeeze_le (a ++ b) true
    unfold squeeze at h
    split at h
    · split at h
      · -- a slash that is left out makes the text shorter
        rw [h, List.length_cons] at hlength
        omega
      · exact ih true (List.cons.inj h).2
    · exact ih false (List.cons.inj h).2

/-- **What follows a slash of a normal path** starts with no slash and is normal. -/
theorem normalize_suffix (h : normalize (dir ++ '/' :: rel) = dir ++ '/' :: rel) (hne : rel ≠ []) :
    normalize rel = rel ∧ rel.head? ≠ some '/' := by
  have hlength := length_squeeze_le (dir ++ '/' :: rel) false
  have hpos : 0 < rel.length := List.length_pos_iff.mpr hne
  have hlong : 1 < (dir ++ '/' :: rel).length := by
    rw [List.length_append, List.length_cons]
    omega
  have hends : (dir ++ '/' :: rel).getLast? ≠ some '/' := by
    intro hends
    rw [normalize, if_pos ⟨hends, hlong⟩] at h
    have hshort := congrArg List.length h
    rw [List.length_dropLast] at hshort
    omega
  rw [normalize, if_neg fun hand => hends hand.1] at h
  obtain ⟨afterSlash, hslash⟩ := squeeze_suffix false h
  have hrel : squeeze true rel = rel := by
    have hshort := length_squeeze_le rel true
    cases afterSlash with
    | true =>
      rw [squeeze, if_pos rfl, if_pos rfl] at hslash
      rw [hslash, List.length_cons] at hshort
      omega
    | false =>
      rw [squeeze, if_pos rfl, if_neg Bool.false_ne_true] at hslash
      exact (List.cons.inj hslash).2
  have hhead : rel.head? ≠ some '/' := by
    intro hhead
    obtain ⟨r, rfl⟩ : ∃ r, rel = '/' :: r := List.head?_eq_some_iff.mp hhead
    have hshort := length_squeeze_le r true
    rw [squeeze, if_pos rfl, if_pos rfl] at hrel
    rw [hrel, List.length_cons] at hshort
    omega
  refine ⟨?_, hhead⟩
  have hlast : rel.getLast? ≠ some '/' := by
    intro hlast
    refine hends ?_
    rw [List.getLast?_append, List.getLast?_cons, hlast]
    rfl
  rw [normalize, if_neg fun hand => hlast hand.1]
  cases rel with
  | nil => rfl
  | cons c r =>
    have hc : c ≠ '/' := fun hc => hhead (by rw [hc]; rfl)
    rw [squeeze, if_neg hc] at hrel ⊢
    exact hrel

/-- A normal path below a directory is the directory's child of the rest of it. -/
theorem child_of_normalize (hdir : dir ≠ []) (hroot : dir ≠ ['/'])
    (h : normalize (dir ++ '/' :: rel) = dir ++ '/' :: rel) (hne : rel ≠ []) :
    child dir rel = dir ++ '/' :: rel := by
  obtain ⟨hnormal, hhead⟩ := normalize_suffix h hne
  have hslash : rel ≠ ['/'] := fun hslash => hhead (by rw [hslash]; rfl)
  rw [child, if_neg hdir, hnormal, resolve, if_neg (not_or.mpr ⟨hne, hslash⟩), if_neg hhead,
    if_neg hroot]

/-! ## Names and parents -/

/-- Nothing is put into it. -/
theorem squeeze_sublist (s : Text) (afterSlash : Bool) :
    (squeeze afterSlash s).Sublist s := by
  induction s generalizing afterSlash with
  | nil => exact List.Sublist.refl _
  | cons c s ih =>
    unfold squeeze
    split
    · split
      · exact (ih true).cons c
      · exact (ih true).cons_cons c
    · exact (ih false).cons_cons c

/-- Normalizing only takes characters away. -/
theorem normalize_sublist (s : Text) : (normalize s).Sublist s := by
  unfold normalize
  dsimp only
  split
  · exact (List.dropLast_sublist _).trans (squeeze_sublist s false)
  · exact squeeze_sublist s false

/-- Behind a slash the next one is taken away. -/
theorem squeeze_head (s : Text) : (squeeze true s).head? ≠ some '/' := by
  induction s with
  | nil => exact (Option.some_ne_none '/').symm
  | cons c s ih =>
    unfold squeeze
    split
    · exact ih
    · next hc =>
      rw [List.head?_cons]
      exact fun h => hc (Option.some.inj h)

/-- Of slashes in a row only one is left. -/
theorem squeeze_ends (s : Text) (afterSlash : Bool) (a : Text) :
    squeeze afterSlash s ≠ a ++ ['/', '/'] := by
  induction s generalizing afterSlash a with
  | nil => exact fun h => absurd (List.nil_eq_append_iff.mp h).2 (List.cons_ne_nil _ _)
  | cons c s ih =>
    unfold squeeze
    split
    · split
      · exact ih true a
      · intro h
        cases a with
        | nil =>
          have hhead := squeeze_head s
          rw [(List.cons.inj h).2] at hhead
          exact hhead rfl
        | cons d a => exact ih true a (List.cons.inj h).2
    · next hc =>
      intro h
      cases a with
      | nil => exact hc (List.cons.inj h).1
      | cons d a => exact ih false a (List.cons.inj h).2

/-- What is behind a path stays, unless it is a slash. -/
theorem squeeze_concat {c : Char} (hc : c ≠ '/') (s : Text) (afterSlash : Bool) :
    squeeze afterSlash (s ++ [c]) = squeeze afterSlash s ++ [c] := by
  induction s generalizing afterSlash with
  | nil => exact if_neg hc
  | cons d s ih =>
    rw [List.cons_append, squeeze, squeeze, ih, ih]
    split
    · split
      · rfl
      · rfl
    · rfl

/-- **A normal path ends with no slash**, the root aside. -/
theorem normalize_ends (h : (normalize s).getLast? = some '/') : normalize s = ['/'] := by
  unfold normalize at h ⊢
  dsimp only at h ⊢
  split at h
  · next hlong =>
    -- without its last slash a squeezed path ends with no slash
    rcases getLast?_squeeze hlong.1 false with hlast | ⟨hfalse, -⟩
    · obtain ⟨x, hx⟩ := List.getLast?_eq_some_iff.mp hlast
      rw [hx, List.dropLast_concat] at h
      obtain ⟨y, rfl⟩ := List.getLast?_eq_some_iff.mp h
      exact absurd (by rw [hx, List.append_assoc]; rfl) (squeeze_ends s false y)
    · cases hfalse
  · next hshort =>
    rw [if_neg hshort]
    cases s using List.reverseRecOn with
    | nil => cases h
    | append_singleton s c =>
      by_cases hc : c = '/'
      · subst hc
        cases s with
        | nil => rfl
        | cons d s => exact absurd ⟨List.getLast?_concat, by simp⟩ hshort
      · rw [squeeze_concat hc, List.getLast?_concat] at h
        exact absurd (Option.some.inj h) hc

/-- There is no slash in a name. -/
theorem notMem_name (s : Text) : '/' ∉ name s := by
  intro h
  have hne : ('/' != '/') = true := @List.mem_rtakeWhile_imp _ (· != '/') _ _ h
  exact bne_iff_ne.mp hne rfl

/-- The name of a path is what follows its last slash. -/
theorem name_append (hs : '/' ∉ s) (a : Text) : name (a ++ '/' :: s) = s := by
  unfold name
  induction s using List.reverseRecOn with
  | nil => exact List.rtakeWhile_concat_neg _ _ _ (by simp)
  | append_singleton s c ih =>
    rw [List.mem_append, not_or, List.mem_singleton] at hs
    have hc : (c != '/') = true := bne_iff_ne.mpr (Ne.symm hs.2)
    have hsplit : a ++ '/' :: (s ++ [c]) = (a ++ '/' :: s) ++ [c] := by simp
    rw [hsplit, List.rtakeWhile_concat_pos (· != '/') _ _ hc, ih hs.1]

/-- **A path is its parent and its name**; without a parent it is in the root. -/
theorem components_parent (hname : name s ≠ []) :
    components s = components ((parent s).getD ['/']) ++ [name s] := by
  have hroot : components ['/'] = [] := components_slash []
  have hsplit : s.rdropWhile (· != '/') ++ name s = s := List.rdropWhile_append_rtakeWhile
  have hlast := components_of_notMem hname (notMem_name s)
  unfold parent
  dsimp only
  split
  · next hnone =>
    rw [hnone, List.nil_append] at hsplit
    rw [Option.getD_none, hroot, List.nil_append, ← hlast, hsplit]
  · next hsome =>
    obtain ⟨a, ha⟩ : ∃ a, s.rdropWhile (· != '/') = a ++ ['/'] := by
      refine ⟨(s.rdropWhile (· != '/')).dropLast, ?_⟩
      have hslash : (s.rdropWhile (· != '/')).getLast hsome = '/' := by
        simpa using List.rdropWhile_last_not _ s hsome
      exact (List.dropLast_append_getLast hsome).symm.trans (by rw [hslash])
    have hs : components s = components a ++ [name s] := by
      rw [← hlast, ← components_append]
      conv_lhs => rw [← hsplit, ha, List.append_assoc, List.singleton_append]
    split
    · next hone =>
      have hlong : 1 < s.length := by
        rw [← hsplit, hone, List.length_append, List.length_singleton]
        have := List.length_pos_iff.mpr hname
        omega
      have hnil : a = [] := by
        rw [ha] at hone
        exact List.append_left_eq_self.mp hone
      rw [if_pos hlong, Option.getD_some, hroot, hs, hnil, components_nil]
    · rw [Option.getD_some, ha, List.dropLast_concat, hs]

/-- Only the root and the empty path have no name. -/
theorem components_of_name_nil (h : name (normalize s) = []) : components s = [] := by
  rw [← components_normalize]
  by_cases hnil : normalize s = []
  · rw [hnil, components_nil]
  · have hlast : (normalize s).getLast? = some '/' := by
      have hends := List.rtakeWhile_eq_nil_iff.mp h hnil
      rw [List.getLast?_eq_some_getLast hnil]
      simpa using hends
    rw [normalize_ends hlast]
    exact components_slash []

/-- **The name of a path** is its last segment. -/
theorem name_normalize {segments : List Text} (h : components s = segments ++ [t]) :
    name (normalize s) = t := by
  have hname : name (normalize s) ≠ [] := by
    intro hname
    rw [components_of_name_nil hname] at h
    exact absurd h (by simp)
  rw [← components_normalize, components_parent hname] at h
  exact List.singleton_inj.mp (List.append_inj' h rfl).2

/-- The child of no name is the directory. -/
theorem child_nil (hdir : dir ≠ []) : child dir [] = dir := by
  rw [child, if_neg hdir]
  rfl

end Cream.Library.FilePath
