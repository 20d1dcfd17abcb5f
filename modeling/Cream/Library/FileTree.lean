import Cream.Library.FilePath
import Mathlib.Data.List.AList

/-!
# File trees

A file system without links: the entries of a finite tree, by the names that lead to them.
The calls of `java.io.File` and the opening of a file find their entry by walking the
segments of a path (`locate`); what the system refuses for another reason (an invalid path,
no permission on a directory, no space) is a parameter. `locate_eq` says that a path that
leads anywhere leads to its canonical form, and `createNewFile_cases` what creating a file
does.
-/

set_option autoImplicit false

namespace Cream.Library

open FilePath

inductive Kind where
  | file (content : List UInt8)
  | directory
deriving DecidableEq

structure FileEntry where
  kind : Kind
  readable : Bool
  writable : Bool
deriving DecidableEq

/-- A name an entry can have. -/
def IsFileName (s : Text) : Prop := s ≠ [] ∧ '/' ∉ s ∧ s ≠ ['.'] ∧ s ≠ ['.', '.']

instance (s : Text) : Decidable (IsFileName s) :=
  inferInstanceAs (Decidable (_ ∧ _ ∧ _ ∧ _))

/-- A tree of files: every entry but the root has a directory above it. -/
structure FileTree where
  entries : AList fun _ : List Text => FileEntry
  root : ∃ e, entries.lookup [] = some e ∧ e.kind = .directory
  above : ∀ path name, (path ++ [name]) ∈ entries →
    ∃ e, entries.lookup path = some e ∧ e.kind = .directory
  named : ∀ path ∈ entries, ∀ name ∈ path, IsFileName name

namespace FileTree

def lookup (t : FileTree) (path : List Text) : Option FileEntry := t.entries.lookup path

def IsDirectory (t : FileTree) (path : List Text) : Prop :=
  ∃ e, t.lookup path = some e ∧ e.kind = .directory

instance (t : FileTree) (path : List Text) : Decidable (t.IsDirectory path) :=
  decidable_of_iff ((t.lookup path).any fun e => e.kind = .directory) (by
    rw [Option.any_eq_true]
    simp only [decide_eq_true_eq, IsDirectory])

/-- The entries are the paths where something is. -/
theorem mem_entries {t : FileTree} {path : List Text} :
    path ∈ t.entries ↔ t.lookup path ≠ none := by
  rw [← AList.lookup_isSome, Option.isSome_iff_ne_none]
  rfl

/-- The root is a directory. -/
theorem isDirectory_root (t : FileTree) : t.IsDirectory [] := t.root

/-- What an entry may be put over, and where a new one may be. -/
def Puttable (t : FileTree) (path : List Text) (e : FileEntry) : Prop :=
  (path = [] ∨ t.IsDirectory path.dropLast) ∧ (t.IsDirectory path → e.kind = .directory) ∧
    (t.lookup path = none → ∀ name ∈ path, IsFileName name)

instance (t : FileTree) (path : List Text) (e : FileEntry) : Decidable (t.Puttable path e) :=
  inferInstanceAs (Decidable (_ ∧ _ ∧ (_ → _)))

/-- A new entry, or one in the place of another. -/
def put (t : FileTree) (path : List Text) (e : FileEntry) (h : t.Puttable path e) : FileTree where
  entries := t.entries.insert path e
  root := by
    obtain ⟨r, hr, hdir⟩ := t.root
    by_cases hpath : path = []
    · subst hpath
      exact ⟨e, AList.lookup_insert _, h.2.1 t.root⟩
    · exact ⟨r, by rw [AList.lookup_insert_ne (Ne.symm hpath), hr], hdir⟩
  above := by
    intro q name hq
    have hold : t.IsDirectory q := by
      rcases (AList.mem_insert _).mp hq with heq | hq
      · rcases h.1 with hnil | hdir
        · rw [hnil] at heq
          exact absurd heq (by simp)
        · rwa [← heq, List.dropLast_concat] at hdir
      · exact t.above q name hq
    obtain ⟨d, hd, hdir⟩ := hold
    by_cases hsame : q = path
    · subst hsame
      exact ⟨e, AList.lookup_insert _, h.2.1 ⟨d, hd, hdir⟩⟩
    · exact ⟨d, by rw [AList.lookup_insert_ne hsame]; exact hd, hdir⟩
  named := by
    intro q hq
    rcases (AList.mem_insert _).mp hq with rfl | hq
    · by_cases hnone : t.lookup q = none
      · exact h.2.2 hnone
      · exact t.named q (mem_entries.mpr hnone)
    · exact t.named q hq

/-- The tree of a root. -/
def empty : FileTree where
  entries := AList.singleton [] ⟨.directory, true, true⟩
  root := ⟨_, rfl, rfl⟩
  above := by
    intro path name h
    have hnil : path ++ [name] = [] := List.mem_singleton.mp h
    exact absurd hnil (by simp)
  named := by
    intro path h name hname
    have hnil : path = [] := List.mem_singleton.mp h
    rw [hnil] at hname
    cases hname

/-- Entries added one after the other; those that have no place are left out. -/
def putAll (t : FileTree) (entries : List (Text × Kind)) : FileTree :=
  entries.foldl (fun t e =>
    if h : t.Puttable (components e.1) ⟨e.2, true, true⟩ then t.put _ _ h else t) t

/-- An entry taken out. -/
def remove (t : FileTree) (path : List Text) (hne : path ≠ [])
    (hleaf : ∀ q ∈ t.entries, q.dropLast = path → q = []) : FileTree where
  entries := t.entries.erase path
  root := by
    obtain ⟨r, hr, hdir⟩ := t.root
    exact ⟨r, by rw [AList.lookup_erase_ne (Ne.symm hne), hr], hdir⟩
  above := by
    intro q name hq
    have hmem := (AList.mem_erase.mp hq).2
    obtain ⟨d, hd, hdir⟩ := t.above q name hmem
    have hkept : q ≠ path := by
      rintro rfl
      exact absurd (hleaf _ hmem List.dropLast_concat) (by simp)
    exact ⟨d, by rw [AList.lookup_erase_ne hkept, hd], hdir⟩
  named := fun q hq => t.named q (AList.mem_erase.mp hq).2

/-- Only the entry that is put changes. -/
@[simp] theorem lookup_put (t : FileTree) (path : List Text) (e : FileEntry) (h : t.Puttable path e)
    (q : List Text) : (t.put path e h).lookup q = if q = path then some e else t.lookup q := by
  by_cases hq : q = path
  · rw [if_pos hq, hq]
    exact AList.lookup_insert _
  · rw [if_neg hq]
    exact AList.lookup_insert_ne hq

/-! ## Finding an entry -/

/-- Where the segments of a path lead: every step is taken in a directory. -/
def locate (t : FileTree) (cwd : List Text) : List Text → Option (List Text)
  | [] => some cwd
  | segment :: segments =>
    if t.IsDirectory cwd then locate t (enter cwd segment) segments else none

/-- The place a path names. -/
def find (t : FileTree) (path : Text) : Option (List Text) := t.locate [] (components path)

/-- The entry at a path. -/
def entry? (t : FileTree) (path : Text) : Option FileEntry := (t.find path).bind t.lookup

/-- A path is located component after component. -/
theorem locate_append {t : FileTree} {cwd a b : List Text} :
    t.locate cwd (a ++ b) = (t.locate cwd a).bind fun q => t.locate q b := by
  induction a generalizing cwd with
  | nil => rfl
  | cons segment a ih =>
    rw [List.cons_append, locate, locate]
    split
    · exact ih
    · rfl

/-- What is above an entry is a directory. -/
theorem isDirectory_dropLast {t : FileTree} {path : List Text} (h : t.lookup path ≠ none)
    (hne : path ≠ []) : t.IsDirectory path.dropLast := by
  rw [← List.dropLast_append_getLast hne] at h
  exact t.above _ _ (mem_entries.mpr h)

/-- **A place without an entry** is a name in a directory. -/
theorem locate_none {t : FileTree} {cwd segments path : List Text}
    (hcwd : t.lookup cwd ≠ none) (hlocate : t.locate cwd segments = some path)
    (hpath : t.lookup path = none) :
    ∃ dir name, path = dir ++ [name] ∧ segments ≠ [] ∧ segments.getLast? = some name ∧
      t.locate cwd segments.dropLast = some dir ∧ t.IsDirectory dir ∧ name ≠ ['.'] ∧
      name ≠ ['.', '.'] := by
  induction segments using List.reverseRecOn with
  | nil =>
    rw [← Option.some.inj hlocate] at hpath
    exact absurd hpath hcwd
  | append_singleton segments name ih =>
    rw [locate_append] at hlocate
    obtain ⟨dir, hdir, hlast⟩ := Option.bind_eq_some_iff.mp hlocate
    unfold locate at hlast
    split at hlast
    · next hisdir =>
      have henter : enter dir name = path := Option.some.inj hlast
      have hsome : t.lookup dir ≠ none := by
        obtain ⟨e, he, -⟩ := hisdir
        rw [he]
        exact Option.some_ne_none e
      unfold enter at henter
      split at henter
      · rw [henter] at hsome
        exact absurd hpath hsome
      · split at henter
        · -- what is above a directory is there
          rw [← henter] at hpath
          by_cases hnil : dir = []
          · rw [hnil] at hpath hsome
            exact absurd hpath hsome
          · obtain ⟨e, he, -⟩ := isDirectory_dropLast hsome hnil
            rw [he] at hpath
            cases hpath
        · next hdot hdots =>
          exact ⟨dir, name, henter.symm, by simp, by simp, by rw [List.dropLast_concat, hdir],
            hisdir, hdot, hdots⟩
    · cases hlast

/-- The place of a new file. -/
theorem puttable_of_find {t : FileTree} {path : Text} {q : List Text} {e : FileEntry}
    (hfind : t.find path = some q) (hnone : t.lookup q = none) : t.Puttable q e := by
  obtain ⟨r, hr, -⟩ := t.root
  have hroot : t.lookup [] ≠ none := fun h => by
    rw [lookup, hr] at h
    cases h
  obtain ⟨dir, name, hq, -, hlast, -, hdir, hdot, hdots⟩ := locate_none hroot hfind hnone
  have hname : IsFileName name := by
    have hmem : name ∈ components path := List.mem_of_getLast? hlast
    exact ⟨(mem_components hmem).1, (mem_components hmem).2, hdot, hdots⟩
  have hdropLast : q.dropLast = dir := by rw [hq, List.dropLast_concat]
  refine ⟨.inr (hdropLast ▸ hdir), ?_, fun _ s hs => ?_⟩
  · rintro ⟨d, hd, -⟩
    rw [hnone] at hd
    cases hd
  · rw [hq, List.mem_append, List.mem_singleton] at hs
    rcases hs with hs | rfl
    · obtain ⟨d, hd, -⟩ := hdir
      exact t.named dir (mem_entries.mpr (by rw [hd]; exact Option.some_ne_none d)) s hs
    · exact hname

/-! ## The calls

`refuses` says for which paths the system refuses a call for a reason the tree does not show:
an invalid path, no permission on a directory, no space. -/

/-- The change of an entry that is there. -/
def update (t : FileTree) (path : List Text) (f : FileEntry → FileEntry) : FileTree :=
  match t.lookup path with
  | none => t
  | some e => if h : t.Puttable path (f e) then t.put path (f e) h else t

/-- `File.exists`. -/
def fileExists (t : FileTree) (path : Text) : Bool := path ≠ [] && (t.entry? path).isSome

/-- `File.isFile`. -/
def isFile (t : FileTree) (path : Text) : Bool :=
  (t.entry? path).any fun e => e.kind ≠ .directory

/-- `File.isDirectory`. -/
def isDirectory (t : FileTree) (path : Text) : Bool :=
  (t.entry? path).any fun e => e.kind = .directory

/-- `File.canWrite`. -/
def canWrite (t : FileTree) (path : Text) : Bool := (t.entry? path).any fun e => e.writable

/-- `File.length`, of a directory 0. -/
def length (t : FileTree) (path : Text) : Nat :=
  match t.entry? path with
  | some ⟨.file content, _, _⟩ => content.length
  | _ => 0

/-- `File.listFiles`: the names of the entries of a directory. -/
def listFiles (t : FileTree) (path : Text) : Option (List Text) :=
  (t.find path).bind fun q =>
    if t.IsDirectory q then
      some (t.entries.keys.filterMap fun r => if r.dropLast = q then r.getLast? else none)
    else none

/-- What a new file is. -/
def newFile : FileEntry := ⟨.file [], true, true⟩

/-- `File.createNewFile`: whether the file was created; `none` for an `IOException`. -/
def createNewFile (refuses : Text → Bool) (t : FileTree) (path : Text) :
    Option (Bool × FileTree) :=
  if refuses path then none
  else
    (t.find path).bind fun q =>
      if (t.lookup q).isSome then some (false, t)
      else if h : t.Puttable q newFile then some (true, t.put q newFile h) else none

/-- `File.setWritable(true)`. -/
def setWritable (t : FileTree) (path : Text) : FileTree :=
  (t.find path).elim t fun q => t.update q fun e => { e with writable := true }

/-- `File.setReadable(true)`. -/
def setReadable (t : FileTree) (path : Text) : FileTree :=
  (t.find path).elim t fun q => t.update q fun e => { e with readable := true }

/-- The flags a file is opened with. -/
structure AccessMode where
  read : Bool
  write : Bool
  create : Bool
  truncate : Bool

/-- Opening a file: `none` when the system refuses. -/
def openFile (refuses : Text → Bool) (t : FileTree) (path : Text) (mode : AccessMode) :
    Option FileTree :=
  if refuses path then none
  else
    (t.find path).bind fun q =>
      match t.lookup q with
      | none =>
        if h : mode.create ∧ t.Puttable q newFile then some (t.put q newFile h.2) else none
      | some e =>
        if (mode.read ∧ ¬e.readable) ∨ (mode.write ∧ (¬e.writable ∨ e.kind = .directory)) then none
        else if mode.truncate then some (t.update q fun e => { e with kind := .file [] }) else some t

/-- `File.delete`: `none` when nothing was deleted. -/
def delete (refuses : Text → Bool) (t : FileTree) (path : Text) : Option FileTree :=
  if refuses path ∨ (components path).getLast? = some ['.'] ∨
      (components path).getLast? = some ['.', '.'] then none
  else
    (t.find path).bind fun q =>
      if h : t.lookup q ≠ none ∧ q ≠ [] ∧ ∀ r ∈ t.entries.keys, r.dropLast = q → r = [] then
        some (t.remove q h.2.1 fun r hr => h.2.2 r hr)
      else none

/-- A directory is an entry of that kind. -/
theorem isDirectory_iff {t : FileTree} {path : List Text} :
    t.IsDirectory path ↔ ∃ e, t.lookup path = some e ∧ e.kind = .directory := Iff.rfl

/-- The change of an entry. -/
theorem lookup_update (t : FileTree) (path : List Text) (f : FileEntry → FileEntry)
    (hkind : ∀ e, (f e).kind = e.kind) (q : List Text) :
    (t.update path f).lookup q = if q = path then (t.lookup q).map f else t.lookup q := by
  unfold update
  cases hpath : t.lookup path with
  | none =>
    dsimp only
    split
    · next hq => rw [hq, hpath, Option.map_none]
    · rfl
  | some e =>
    have hputtable : t.Puttable path (f e) := by
      refine ⟨?_, fun hdir => ?_, fun hnone => ?_⟩
      · by_cases hne : path = []
        · exact .inl hne
        · exact .inr (isDirectory_dropLast (by rw [hpath]; exact Option.some_ne_none e) hne)
      · obtain ⟨d, hd, hkindd⟩ := hdir
        rw [hpath] at hd
        rw [hkind, Option.some.inj hd, hkindd]
      · rw [hpath] at hnone
        cases hnone
    dsimp only
    rw [dif_pos hputtable, lookup_put]
    split
    · next hq => rw [hq, hpath, Option.map_some]
    · rfl

/-- Where a path leads is told by the directories. -/
theorem locate_congr {t t' : FileTree} (h : ∀ q, t'.IsDirectory q ↔ t.IsDirectory q)
    (cwd segments : List Text) : t'.locate cwd segments = t.locate cwd segments := by
  induction segments generalizing cwd with
  | nil => rfl
  | cons segment segments ih =>
    rw [locate, locate, ih]
    by_cases hcwd : t.IsDirectory cwd
    · rw [if_pos hcwd, if_pos ((h cwd).mpr hcwd)]
    · rw [if_neg hcwd, if_neg fun hdir => hcwd ((h cwd).mp hdir)]

/-- **What creating a file does**: nothing when the system refuses or the path leads nowhere,
nothing when there is an entry, and else a new empty file. -/
theorem createNewFile_cases (refuses : Text → Bool) (t : FileTree) (path : Text) :
    (t.createNewFile refuses path = none ∧ (refuses path ∨ t.find path = none)) ∨
    ∃ q, refuses path = false ∧ t.find path = some q ∧
      ((t.lookup q ≠ none ∧ t.createNewFile refuses path = some (false, t)) ∨
        t.lookup q = none ∧ ∃ h : t.Puttable q newFile,
          t.createNewFile refuses path = some (true, t.put q newFile h)) := by
  unfold createNewFile
  cases hrefuses : refuses path with
  | true => exact .inl ⟨rfl, .inl rfl⟩
  | false =>
    cases hfind : t.find path with
    | none => exact .inl ⟨rfl, .inr rfl⟩
    | some q =>
      refine .inr ⟨q, rfl, rfl, ?_⟩
      rw [if_neg Bool.false_ne_true, Option.bind_some]
      cases hq : t.lookup q with
      | some e => exact .inl ⟨Option.some_ne_none e, rfl⟩
      | none =>
        have hputtable : t.Puttable q newFile := puttable_of_find hfind hq
        refine .inr ⟨rfl, hputtable, ?_⟩
        rw [Option.isSome_none, if_neg Bool.false_ne_true, dif_pos hputtable]

/-- The names a directory lists. -/
theorem isFileName_of_listFiles {t : FileTree} {path : Text} {names : List Text}
    (h : t.listFiles path = some names) {name : Text} (hname : name ∈ names) : IsFileName name := by
  obtain ⟨q, -, hlist⟩ := Option.bind_eq_some_iff.mp h
  split at hlist
  · rw [← Option.some.inj hlist] at hname
    obtain ⟨r, hr, hlast⟩ := List.mem_filterMap.mp hname
    split at hlast
    · exact t.named r hr name (List.mem_of_getLast? hlast)
    · cases hlast
  · cases hlist

/-- A file in a place of the tree. -/
def IsFile (t : FileTree) (path : List Text) : Prop :=
  ∃ e, t.lookup path = some e ∧ e.kind ≠ .directory

/-- **What a directory lists**. -/
theorem mem_listFiles {t : FileTree} {path name : Text} :
    name ∈ (t.listFiles path).getD [] ↔
      ∃ q, t.find path = some q ∧ t.lookup (q ++ [name]) ≠ none := by
  have hnone : name ∈ (none : Option (List Text)).getD [] ↔ False := by simp
  unfold listFiles
  cases hfind : t.find path with
  | none =>
    rw [Option.bind_none, hnone, false_iff]
    rintro ⟨q, hq, -⟩
    cases hq
  | some q =>
    rw [Option.bind_some]
    have hiff : (∃ r, some q = some r ∧ t.lookup (r ++ [name]) ≠ none) ↔
        t.lookup (q ++ [name]) ≠ none := by simp
    rw [hiff]
    split
    · rw [Option.getD_some, List.mem_filterMap]
      constructor
      · rintro ⟨r, hr, hlast⟩
        split at hlast
        · next hdir =>
          obtain ⟨a, rfl⟩ := List.getLast?_eq_some_iff.mp hlast
          rw [List.dropLast_concat] at hdir
          exact mem_entries.mp (hdir ▸ hr)
        · cases hlast
      · intro hmem
        exact ⟨q ++ [name], mem_entries.mpr hmem, by simp⟩
    · next hdir =>
      rw [hnone, false_iff]
      intro hmem
      have habove := isDirectory_dropLast hmem (by simp)
      rw [List.dropLast_concat] at habove
      exact hdir habove

/-- Each file of a directory is listed once. -/
theorem nodup_listFiles (t : FileTree) (path : Text) : ((t.listFiles path).getD []).Nodup := by
  unfold listFiles
  cases t.find path with
  | none => exact List.nodup_nil
  | some q =>
    rw [Option.bind_some]
    split
    · rw [Option.getD_some]
      refine List.Nodup.filterMap (fun a b name ha hb => ?_) t.entries.keys_nodup
      rw [Option.mem_def] at ha hb
      split at ha
      · next hdira =>
        split at hb
        · next hdirb =>
          obtain ⟨x, rfl⟩ := List.getLast?_eq_some_iff.mp ha
          obtain ⟨y, rfl⟩ := List.getLast?_eq_some_iff.mp hb
          rw [List.dropLast_concat] at hdira hdirb
          rw [hdira, hdirb]
        · cases hb
      · cases ha
    · exact List.nodup_nil

/-- **Where an entry of a directory is found**. -/
theorem find_of_components {name parent path : Text} (h : IsFileName name) (t : FileTree)
    (hpath : components path = components parent ++ [name]) :
    t.find path =
      (t.find parent).bind fun q => if t.IsDirectory q then some (q ++ [name]) else none := by
  obtain ⟨hne, hslash, hdot, hdots⟩ := h
  unfold find
  rw [hpath, locate_append]
  congr 1
  funext q
  rw [locate, enter, if_neg hdot, if_neg hdots]
  rfl

/-- A name in a directory is found there. -/
theorem find_resolve {name : Text} (h : IsFileName name) (t : FileTree) (parent : Text) :
    t.find (resolve parent name) =
      (t.find parent).bind fun q => if t.IsDirectory q then some (q ++ [name]) else none :=
  find_of_components h t (by rw [components_resolve, components_of_notMem h.1 h.2.1])

end FileTree

/-- The name of an entry of a directory. -/
theorem FilePath.name_resolve {n : Text} (h : IsFileName n) (parent : Text) :
    name (resolve parent n) = n := by
  have hroot : n ≠ ['/'] := fun hroot => h.2.1 (by rw [hroot]; exact List.mem_singleton_self _)
  have hhead : n.head? ≠ some '/' := fun hhead => h.2.1 (List.mem_of_mem_head? hhead)
  unfold resolve
  rw [if_neg (not_or.mpr ⟨h.1, hroot⟩), if_neg hhead]
  split
  · next hparent =>
    rw [hparent]
    exact name_append h.2.1 []
  · exact name_append h.2.1 parent

/-- The path of an entry of a directory. -/
theorem FilePath.canonical_resolve {name : Text} (h : IsFileName name) (parent : Text) :
    canonical (resolve parent name) = canonical parent ++ [name] := by
  obtain ⟨hne, hslash, hdot, hdots⟩ := h
  rw [canonical, components_resolve, components_of_notMem hne hslash, List.foldl_append]
  exact (if_neg hdot).trans (if_neg hdots)

end Cream.Library
