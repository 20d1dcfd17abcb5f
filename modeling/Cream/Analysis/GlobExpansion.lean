import Cream.Model.ExpandWildcard

/-!
# What a wildcard expands to

`expandWildcard` is to return the regular files of the parent directory whose name the glob
matches, each once and by name (`Expands`). The three replacements turn a name into the
expression of the glob, character by character (`namePattern_eq`), and listing, filtering and
sorting are as they should be (`expands_iff`). But parentheses and the other metacharacters are
not escaped, `.` takes no line terminator, and a path without wildcards is returned when it names
a directory too: `expandWildcard_right_iff`.
-/

set_option autoImplicit false

namespace Cream.Analysis

open Library Library.FilePath Model Model.WebService

namespace GlobExpansion

/-- Glob semantics: a wildcard takes any character. -/
def everything : Char → Bool := fun _ => true

/-- A regular file of the parent directory. -/
def Listed (t : FileTree) (path n : Text) (q : List Text) : Prop :=
  ∃ dir, t.find (parentFile path) = some dir ∧ q = dir ++ [n] ∧ t.IsFile q

/-- A regular file of the parent directory whose name the glob matches. -/
def Matching (t : FileTree) (path : Text) (q : List Text) : Prop :=
  ∃ n, Listed t path n q ∧ Glob.Matches everything (name (normalize path)) n

/-- The result is exactly the matching files, each once, in ascending name order. -/
structure Expands (t : FileTree) (path : Text) (files : List Text) : Prop where
  sound : ∀ f ∈ files, ∃ q, t.find f = some q ∧ Matching t path q
  complete : ∀ q, Matching t path q → ∃ f ∈ files, t.find f = some q
  once : (files.map t.find).Nodup
  ascending : files.Pairwise NameOrder

/-- `expandWildcard` does not throw and returns what it should. -/
def ExpandsRight (engine : Glob.Engine) (t : FileTree) (path : Text) : Prop :=
  ∃ files, expandWildcard engine t path = some files ∧ Expands t path files

/-- When it does: with a wildcard, the parentheses of the name are in pairs, and a regular file
of the parent directory matches the name without parentheses, with wildcards that take no line
terminator, just when it matches the name; without one, the path does not name a directory. -/
def ReadRight (engine : Glob.Engine) (t : FileTree) (path : Text) : Prop :=
  if hasWildcard path then
    Glob.balanced 0 ((name (normalize path)).map Glob.atom) ∧
      ∀ n q, Listed t path n q →
        (Glob.Matches (fun c => !engine.isTerminator c) (Glob.ungrouped (name (normalize path))) n ↔
          Glob.Matches everything (name (normalize path)) n)
  else ¬(t.fileExists (normalize path) ∧ t.isDirectory (normalize path))

/-! ## The pattern -/

/-- One character replaced everywhere. -/
theorem replace_char (s new : Text) (c : Char) :
    s.replace [c] new = s.flatMap fun d => if d = c then new else [d] := by
  induction s with
  | nil => rfl
  | cons d s ih =>
    rw [List.flatMap_cons, ← ih]
    by_cases hd : d = c
    · rw [if_pos hd, hd]
      exact Text.replace_occurrence
    · rw [if_neg hd]
      exact Text.replace_cons fun hprefix => hd (List.cons_prefix_cons.mp hprefix).1.symm

/-- **The three replacements** are those of each character. -/
theorem namePattern_eq (s : Text) : namePattern s = Glob.toRegex s := by
  unfold namePattern Glob.toRegex
  rw [replace_char, replace_char, replace_char, List.flatMap_assoc, List.flatMap_assoc]
  refine List.flatMap_congr fun c _ => ?_
  unfold Glob.piece
  split
  · rfl
  · next hdot =>
    by_cases hstar : c = '*'
    · rw [hstar]
      rfl
    · by_cases hquestion : c = '?'
      · rw [hquestion]
        rfl
      · simp [hstar, hquestion]

/-! ## The files -/

variable {engine : Glob.Engine} {t : FileTree} {path n : Text} {q : List Text}

/-- What is listed has a name. -/
theorem isFileName_of_mem {parent : Text} (h : n ∈ (t.listFiles parent).getD []) :
    IsFileName n := by
  cases hlist : t.listFiles parent with
  | none =>
    rw [hlist] at h
    cases h
  | some names =>
    rw [hlist] at h
    exact FileTree.isFileName_of_listFiles hlist h

/-- The names of a place. -/
theorem Listed.unique {m : Text} (h : Listed t path n q) (h' : Listed t path m q) : n = m := by
  obtain ⟨dir, -, hq, -⟩ := h
  obtain ⟨dir', -, hq', -⟩ := h'
  rw [hq] at hq'
  exact List.singleton_inj.mp (List.append_inj' hq' rfl).2

/-- A regular file of the parent directory is listed, and found there. -/
theorem Listed.found (h : Listed t path n q) :
    n ∈ (t.listFiles (parentFile path)).getD [] ∧ t.isFile (resolve (parentFile path) n) ∧
      t.find (resolve (parentFile path) n) = some q := by
  obtain ⟨dir, hdir, rfl, e, he, hkind⟩ := h
  have hsome : t.lookup (dir ++ [n]) ≠ none := by
    rw [he]
    exact Option.some_ne_none e
  have hmem : n ∈ (t.listFiles (parentFile path)).getD [] :=
    FileTree.mem_listFiles.mpr ⟨dir, hdir, hsome⟩
  have hisdir : t.IsDirectory dir := by
    have habove := FileTree.isDirectory_dropLast hsome (by simp)
    rwa [List.dropLast_concat] at habove
  have hfind : t.find (resolve (parentFile path) n) = some (dir ++ [n]) := by
    rw [FileTree.find_resolve (isFileName_of_mem hmem), hdir, Option.bind_some, if_pos hisdir]
  refine ⟨hmem, ?_, hfind⟩
  unfold FileTree.isFile FileTree.entry?
  rw [hfind, Option.bind_some, he]
  exact decide_eq_true hkind

/-- What is listed and is a file is a regular file of the parent directory. -/
theorem listed_of_mem (hmem : n ∈ (t.listFiles (parentFile path)).getD [])
    (hfile : t.isFile (resolve (parentFile path) n)) : ∃ q, Listed t path n q := by
  obtain ⟨dir, hdir, hsome⟩ := FileTree.mem_listFiles.mp hmem
  have hisdir : t.IsDirectory dir := by
    have habove := FileTree.isDirectory_dropLast hsome (by simp)
    rwa [List.dropLast_concat] at habove
  unfold FileTree.isFile FileTree.entry? at hfile
  rw [FileTree.find_resolve (isFileName_of_mem hmem), hdir, Option.bind_some, if_pos hisdir,
    Option.bind_some] at hfile
  obtain ⟨e, he, hkind⟩ := (Option.any_eq_true _ _).mp hfile
  exact ⟨dir ++ [n], dir, hdir, rfl, e, he, of_decide_eq_true hkind⟩

/-- The files that are listed, kept and sorted. -/
def kept (t : FileTree) (path : Text) (regex : Text → Bool) : List Text :=
  (((t.listFiles (parentFile path)).getD []).map (resolve (parentFile path))).filter
    fun it => regex (name it) && t.isFile it

/-- What is kept are listed files whose names match. -/
theorem mem_kept {regex : Text → Bool} {f : Text} : f ∈ kept t path regex ↔
    ∃ n q, f = resolve (parentFile path) n ∧ regex n ∧ Listed t path n q ∧
      t.find f = some q := by
  unfold kept
  rw [List.mem_filter, List.mem_map, Bool.and_eq_true]
  constructor
  · rintro ⟨⟨n, hmem, rfl⟩, hmatches, hfile⟩
    obtain ⟨q, hq⟩ := listed_of_mem hmem hfile
    rw [name_resolve (isFileName_of_mem hmem)] at hmatches
    exact ⟨n, q, rfl, hmatches, hq, hq.found.2.2⟩
  · rintro ⟨n, q, rfl, hmatches, hq, -⟩
    refine ⟨⟨n, hq.found.1, rfl⟩, ?_, hq.found.2.1⟩
    rwa [name_resolve (isFileName_of_mem hq.found.1)]

/-- Each is kept once. -/
theorem nodup_kept (t : FileTree) (path : Text) (regex : Text → Bool) :
    (kept t path regex).Nodup := by
  refine List.Nodup.filter _ (List.Nodup.map_on (fun a ha b hb hab => ?_)
    (FileTree.nodup_listFiles t (parentFile path)))
  rw [← name_resolve (isFileName_of_mem ha) (parentFile path), hab,
    name_resolve (isFileName_of_mem hb)]

/-- **The result is right** just when the pattern tells the regular files of the directory as the
glob does. -/
theorem expands_iff {regex : Text → Bool} :
    Expands t path ((kept t path regex).insertionSort NameOrder) ↔
      ∀ n q, Listed t path n q →
        (regex n = true ↔ Glob.Matches everything (name (normalize path)) n) := by
  constructor
  · intro h n q hq
    constructor
    · intro hmatches
      have hmem : resolve (parentFile path) n ∈ kept t path regex :=
        mem_kept.mpr ⟨n, q, rfl, hmatches, hq, hq.found.2.2⟩
      obtain ⟨r, hr, m, hm, hglob⟩ := h.sound _ ((List.mem_insertionSort _).mpr hmem)
      rw [hq.found.2.2] at hr
      rw [← Option.some.inj hr] at hm
      rwa [hq.unique hm]
    · intro hglob
      obtain ⟨f, hf, hfind⟩ := h.complete q ⟨n, hq, hglob⟩
      obtain ⟨m, r, -, hmatches, hr, hfound⟩ := mem_kept.mp ((List.mem_insertionSort _).mp hf)
      rw [hfind] at hfound
      rw [← Option.some.inj hfound] at hr
      rwa [hq.unique hr]
  · intro h
    refine ⟨fun f hf => ?_, fun q hq => ?_, ?_, ?_⟩
    · obtain ⟨n, q, -, hmatches, hq, hfind⟩ := mem_kept.mp ((List.mem_insertionSort _).mp hf)
      exact ⟨q, hfind, n, hq, (h n q hq).mp hmatches⟩
    · obtain ⟨n, hn, hglob⟩ := hq
      have hmem : resolve (parentFile path) n ∈ kept t path regex :=
        mem_kept.mpr ⟨n, q, rfl, (h n q hn).mpr hglob, hn, hn.found.2.2⟩
      exact ⟨_, (List.mem_insertionSort _).mpr hmem, hn.found.2.2⟩
    · -- the files are in different places
      refine List.Nodup.map_on (fun f hf g hg hfg => ?_)
        ((List.perm_insertionSort NameOrder _).nodup_iff.mpr (nodup_kept t path regex))
      obtain ⟨n, q, hfn, -, hq, hfind⟩ := mem_kept.mp ((List.mem_insertionSort _).mp hf)
      obtain ⟨m, r, hgm, -, hr, hgind⟩ := mem_kept.mp ((List.mem_insertionSort _).mp hg)
      rw [hfind, hgind] at hfg
      rw [← Option.some.inj hfg] at hr
      rw [hfn, hgm, hq.unique hr]
    · have : Std.Total NameOrder := ⟨fun f g => le_total (units (name f)) (units (name g))⟩
      have : IsTrans Text NameOrder := ⟨fun f g k => le_trans⟩
      exact List.pairwise_insertionSort NameOrder _

/-! ## A path without wildcards -/

/-- A file name is the name of a path just when the path leads to that entry of its parent. -/
theorem find_normalize (h : IsFileName (name (normalize path))) :
    t.find (normalize path) = t.find (resolve (parentFile path) (name (normalize path))) := by
  unfold FileTree.find
  rw [components_parent h.1, components_resolve, components_of_notMem h.1 h.2.1]
  rfl

/-- A path that leads to a file names an entry of its parent. -/
theorem listed_of_find (hfind : t.find (normalize path) = some q) (hfile : t.IsFile q) :
    Listed t path (name (normalize path)) q := by
  have hnotdir : ¬t.IsDirectory q := by
    obtain ⟨e, he, hkind⟩ := hfile
    rintro ⟨d, hd, hdir⟩
    rw [he] at hd
    exact hkind (by rw [Option.some.inj hd, hdir])
  have hname : name (normalize path) ≠ [] := by
    intro hname
    unfold FileTree.find at hfind
    rw [components_normalize, components_of_name_nil hname] at hfind
    rw [← Option.some.inj hfind] at hnotdir
    exact hnotdir t.isDirectory_root
  unfold FileTree.find at hfind
  rw [components_parent hname, FileTree.locate_append] at hfind
  obtain ⟨dir, hdir, hlast⟩ := Option.bind_eq_some_iff.mp hfind
  unfold FileTree.locate at hlast
  split at hlast
  · next hisdir =>
    have henter : enter dir (name (normalize path)) = q := Option.some.inj hlast
    unfold enter at henter
    split at henter
    · exact absurd (henter ▸ hisdir) hnotdir
    · split at henter
      · refine absurd ?_ hnotdir
        rw [← henter]
        by_cases hnil : dir = []
        · rw [hnil]
          exact t.isDirectory_root
        · obtain ⟨e, he, -⟩ := hisdir
          exact FileTree.isDirectory_dropLast (by rw [he]; exact Option.some_ne_none e) hnil
      · exact ⟨dir, hdir, henter.symm, hfile⟩
  · cases hlast

/-- **A path without wildcards** expands to the file it names, unless it names a directory. -/
theorem single_iff (h : hasWildcard path = false) :
    Expands t path (if t.fileExists (normalize path) then [normalize path] else []) ↔
      ¬(t.fileExists (normalize path) ∧ t.isDirectory (normalize path)) := by
  have hglob : ∀ n, Glob.Matches everything (name (normalize path)) n ↔
      n = name (normalize path) := by
    have hsub : ∀ c ∈ name (normalize path), c ∈ path := fun c hc =>
      (normalize_sublist path).subset ((List.rtakeWhile_suffix _ _).subset hc)
    unfold hasWildcard at h
    rw [Bool.or_eq_false_iff] at h
    intro n
    refine Glob.matches_self (fun hstar => ?_) (fun hquestion => ?_)
    · exact absurd (List.contains_iff_mem.mpr (hsub _ hstar)) (Bool.eq_false_iff.mp h.1)
    · exact absurd (List.contains_iff_mem.mpr (hsub _ hquestion)) (Bool.eq_false_iff.mp h.2)
  have hfound : ∀ q, Matching t path q →
      t.find (normalize path) = some q ∧ t.fileExists (normalize path) := by
    rintro q ⟨n, hn, hmatch⟩
    obtain rfl := (hglob n).mp hmatch
    have hisname := isFileName_of_mem hn.found.1
    have hfind := (find_normalize hisname).trans hn.found.2.2
    have hne : normalize path ≠ [] := fun hnil => hisname.1 (by rw [hnil]; rfl)
    obtain ⟨dir, -, -, e, he, -⟩ := hn
    refine ⟨hfind, ?_⟩
    unfold FileTree.fileExists FileTree.entry?
    rw [hfind, Option.bind_some, he]
    simpa using hne
  constructor
  · rintro hexpands ⟨hexists, hdir⟩
    rw [if_pos hexists] at hexpands
    obtain ⟨q, hfind, n, ⟨-, -, -, e, he, hkind⟩, -⟩ := hexpands.sound _ List.mem_cons_self
    unfold FileTree.isDirectory FileTree.entry? at hdir
    rw [hfind, Option.bind_some, he] at hdir
    exact hkind (of_decide_eq_true hdir)
  · intro hnot
    by_cases hexists : t.fileExists (normalize path)
    · rw [if_pos hexists]
      have hentry : (t.entry? (normalize path)).isSome := by
        unfold FileTree.fileExists at hexists
        exact (Bool.and_eq_true_iff.mp hexists).2
      obtain ⟨e, he⟩ := Option.isSome_iff_exists.mp hentry
      obtain ⟨q, hfind, hq⟩ := Option.bind_eq_some_iff.mp he
      have hkind : e.kind ≠ .directory := fun hkind => hnot ⟨hexists, by
        unfold FileTree.isDirectory
        rw [he]
        exact decide_eq_true hkind⟩
      refine ⟨fun f hf => ?_, fun r hr => ?_, ?_, List.pairwise_singleton _ _⟩
      · rw [List.mem_singleton.mp hf]
        exact ⟨q, hfind, name (normalize path), listed_of_find hfind ⟨e, hq, hkind⟩,
          (hglob _).mpr rfl⟩
      · exact ⟨_, List.mem_singleton_self _, (hfound r hr).1⟩
      · exact List.nodup_singleton _
    · rw [if_neg hexists]
      refine ⟨fun f hf => absurd hf List.not_mem_nil, fun r hr => ?_, List.nodup_nil, List.Pairwise.nil⟩
      exact absurd (hfound r hr).2 hexists

/-! ## The result -/

/-- **The condition for a name without parentheses**: no wildcard has to take a line terminator
in the name of a file. -/
theorem readRight_iff (hwildcard : hasWildcard path) (hopening : '(' ∉ name (normalize path))
    (hclosing : ')' ∉ name (normalize path)) :
    ReadRight engine t path ↔ ∀ n q, Listed t path n q →
      Glob.Matches everything (name (normalize path)) n →
        Glob.Matches (fun c => !engine.isTerminator c) (name (normalize path)) n := by
  unfold ReadRight
  rw [if_pos hwildcard, Glob.balanced_map hopening hclosing, Glob.ungrouped_eq hopening hclosing]
  constructor
  · rintro ⟨-, h⟩ n q hq
    exact (h n q hq).mpr
  · exact fun h => ⟨rfl, fun n q hq => ⟨Glob.Matches.mono fun _ _ => rfl, h n q hq⟩⟩

/-- **When `expandWildcard` returns what the glob names**, for a name in which no other
metacharacter of regular expressions than parentheses stands: exactly when the parentheses are in
pairs and no file of the directory is told otherwise without them or for a line terminator, and,
for a path without wildcards, when it names no directory.

SOURCE: WebService.kt:202-215 -/
theorem expandWildcard_right_iff (engine : Glob.Engine) (t : FileTree) (path : Text)
    (hname : hasWildcard path → ∀ c ∈ name (normalize path), c ∉ Glob.METACHARACTERS) :
    ExpandsRight engine t path ↔ ReadRight engine t path := by
  unfold ExpandsRight ReadRight expandWildcard
  cases hwildcard : hasWildcard path with
  | false =>
    rw [if_neg Bool.false_ne_true, if_neg Bool.false_ne_true, ← single_iff hwildcard]
    simp
  | true =>
    have hcompile := Glob.compile_toRegex engine (hname hwildcard)
    rw [if_pos rfl, if_pos rfl, namePattern_eq, hcompile]
    cases hbalanced : Glob.balanced 0 ((name (normalize path)).map Glob.atom) with
    | false =>
      constructor
      · rintro ⟨files, h, -⟩
        cases h
      · rintro ⟨h, -⟩
        cases h
    | true =>
      rw [if_pos rfl, Option.map_some]
      constructor
      · rintro ⟨files, h, hexpands⟩
        rw [← Option.some.inj h] at hexpands
        refine ⟨rfl, fun n q hq => ?_⟩
        rw [← Glob.test_iff]
        exact expands_iff.mp hexpands n q hq
      · rintro ⟨-, h⟩
        refine ⟨_, rfl, expands_iff.mpr fun n q hq => ?_⟩
        rw [Glob.test_iff]
        exact h n q hq

/-- The engine that knows nothing but what a glob is turned into. -/
def lineEngine : Glob.Engine where
  isTerminator c := c ∈ ['\n', '\r']
  other _ := none

/-- The frames of two prints. -/
def framesDir : FileTree := FileTree.empty.putAll
  [("/t".toList, .directory), ("/t/frame1.jpg".toList, .file []),
    ("/t/(1)1.jpg".toList, .file []), ("/t/11.jpg".toList, .file [])]

/-- The frames in a directory. -/
theorem expandWildcard_right_frames :
    ExpandsRight lineEngine framesDir "/t/frame*.jpg".toList ↔
      ReadRight lineEngine framesDir "/t/frame*.jpg".toList := by
  have hname : (name (normalize "/t/frame*.jpg".toList)).all
      (fun c => c ∉ Glob.METACHARACTERS) = true := by decide +kernel
  exact expandWildcard_right_iff lineEngine framesDir "/t/frame*.jpg".toList
    fun _ c hc => of_decide_eq_true (List.all_eq_true.mp hname c hc)

/-- The glob `(1)*` expands to a file it does not match. -/
theorem expandWildcard_not_right :
    ¬∀ (engine : Glob.Engine) (t : FileTree) (path : Text), ExpandsRight engine t path := by
  intro h
  obtain ⟨files, hfiles, hexpands⟩ := h lineEngine framesDir "/t/(1)*".toList
  have hresult : expandWildcard lineEngine framesDir "/t/(1)*".toList =
      some ["/t/11.jpg".toList] := by decide +kernel
  rw [hresult] at hfiles
  have hmem : "/t/11.jpg".toList ∈ files := by
    rw [← Option.some.inj hfiles]
    exact List.mem_singleton_self _
  obtain ⟨q, hfind, n, ⟨dir, -, hq, -⟩, hglob⟩ := hexpands.sound _ hmem
  have hplace : framesDir.find "/t/11.jpg".toList = some ["t".toList, "11.jpg".toList] := by
    decide +kernel
  rw [hplace] at hfind
  rw [← Option.some.inj hfind] at hq
  have hn : n = "11.jpg".toList := by
    have hsplit : ["t".toList] ++ ["11.jpg".toList] = dir ++ [n] := hq
    exact (List.singleton_inj.mp (List.append_inj' hsplit rfl).2).symm
  rw [hn] at hglob
  have hnot : ¬Glob.Matches everything (name (normalize "/t/(1)*".toList)) "11.jpg".toList := by
    decide +kernel
  exact hnot hglob

end GlobExpansion

end Cream.Analysis
