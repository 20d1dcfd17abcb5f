import Cream.Analysis.DocumentContainment

/-!
# What createDocument leaves

`InstanceFilesProvider.kt`: `createDocument` makes a file under the display name and answers
with its id. It does not look at the mime type, at whether `createNewFile` made a file or
found one, or at where the display name leads. `document_created_iff` says when the call
nevertheless does what it should: make one new child of the parent, of the kind that was
asked for, or throw and change nothing.
-/

set_option autoImplicit false

namespace Cream.Model.InstanceFilesProvider

open Cream.Library

variable {p : InstanceFilesProvider} {refuses : Text → Bool} {t : FileTree}
variable {docId mimeType displayName path parentFile : Text} {parent : List Text}

/-- What `createDocument` should do: throw and change nothing, or make exactly one new child
of the parent, a directory if that was asked for and a file if not, whose id it answers. -/
def CreatedAsAsked (p : InstanceFilesProvider) (t : FileTree) (parent : List Text)
    (mimeType : Text) (o : Outcome Text) : Prop :=
  ((∃ e, o.result = .error e) ∧ o.tree = t) ∨
    ∃ name e, t.lookup (parent ++ [name]) = none ∧
      (e.kind = .directory ↔ mimeType = MIME_TYPE_DIR) ∧
      (∀ q, o.tree.lookup q = if q = parent ++ [name] then some e else t.lookup q) ∧
      ∃ docId file, o.result = .ok docId ∧ p.getFileForDocId docId = some file ∧
        o.tree.find file = some (parent ++ [name])

/-- When it does: the system refuses the path, or it leads nowhere; or no directory was asked
for, and the path leads to a name in the parent that is not taken. -/
def CanCreate (refuses : Text → Bool) (t : FileTree) (parent : List Text) (mimeType path : Text) :
    Prop :=
  refuses path ∨ t.find path = none ∨
    (mimeType ≠ MIME_TYPE_DIR ∧
      ∃ name, t.find path = some (parent ++ [name]) ∧ t.lookup (parent ++ [name]) = none)

/-! ## The id of what was created -/

/-- A path of a display name starts with the public directory. -/
theorem child_child_cases (p : InstanceFilesProvider) (inst rel name : Text) :
    FilePath.child (FilePath.child (p.publicDirectory inst) rel) name = p.publicDirectory inst ∨
      ∃ r, FilePath.child (FilePath.child (p.publicDirectory inst) rel) name =
        p.publicDirectory inst ++ '/' :: r := by
  obtain ⟨hne, hroot, -⟩ := publicDirectory_plain p inst
  rcases FilePath.child_cases hne hroot rel with hparent | ⟨r, hparent⟩
  · rw [hparent]
    exact FilePath.child_cases hne hroot name
  · have hparentNe : p.publicDirectory inst ++ '/' :: r ≠ [] := by simp
    have hparentRoot : p.publicDirectory inst ++ '/' :: r ≠ ['/'] := by
      intro h
      have hlength := congrArg List.length h
      have hpos := List.length_pos_iff.mpr hne
      rw [List.length_append, List.length_cons, List.length_singleton] at hlength
      omega
    rw [hparent]
    rcases FilePath.child_cases hparentNe hparentRoot name with h | ⟨r', h⟩
    · exact .inr ⟨r, h⟩
    · exact .inr ⟨r ++ '/' :: r', by rw [h, List.append_assoc, List.cons_append]⟩

/-- **The id of a path** that starts with the public directory leads to the same place. -/
theorem getDocIdForFile_leads {inst : Text} (hmem : inst ∈ p.instances) (hid : ':' ∉ inst)
    (hpath : path = p.publicDirectory inst ∨ ∃ r, path = p.publicDirectory inst ++ '/' :: r) :
    ∃ docId file, p.getDocIdForFile inst path = .ok docId ∧ p.getFileForDocId docId = some file ∧
      FilePath.components file = FilePath.components path := by
  obtain ⟨-, -, hlast⟩ := publicDirectory_plain p inst
  obtain ⟨rel, hdoc, hrel⟩ : ∃ rel, p.getDocIdForFile inst path = .ok (PREFIX ++ inst ++ ':' :: rel) ∧
      FilePath.components path =
        FilePath.components (p.publicDirectory inst) ++ FilePath.components rel := by
    unfold getDocIdForFile
    rcases hpath with rfl | ⟨r, rfl⟩
    · refine ⟨[], ?_, ?_⟩
      · rw [if_pos rfl]
        rfl
      · rw [FilePath.components_nil, List.append_nil]
    · have hother : p.publicDirectory inst ≠ p.publicDirectory inst ++ '/' :: r := by
        intro h
        have hlength := congrArg List.length h
        rw [List.length_append, List.length_cons] at hlength
        omega
      have hlong : (p.publicDirectory inst).length + 1 ≤
          (p.publicDirectory inst ++ '/' :: r).length := by
        rw [List.length_append, List.length_cons]
        omega
      have hdrop : (p.publicDirectory inst ++ '/' :: r).drop
          ((p.publicDirectory inst).length + 1) = r := by
        rw [List.drop_append, List.drop_eq_nil_of_le (Nat.le_succ _), List.nil_append,
          Nat.add_sub_cancel_left]
        rfl
      refine ⟨r, ?_, FilePath.components_append _ _⟩
      dsimp only
      rw [if_neg hother, if_neg hlast, substring, if_pos hlong, hdrop]
      rfl
  refine ⟨_, _, hdoc, (read_docId hmem hid rel).1, ?_⟩
  rw [FilePath.components_child, hrel]

/-! ## What the call does -/

/-- A change of permissions leaves the directories as they are. -/
theorem find_update (t : FileTree) (place : List Text) (f : FileEntry → FileEntry)
    (hkind : ∀ e, (f e).kind = e.kind) (path : Text) :
    (t.update place f).find path = t.find path := by
  refine FileTree.locate_congr (fun q => ?_) _ _
  rw [FileTree.isDirectory_iff, FileTree.isDirectory_iff, FileTree.lookup_update t place f hkind]
  by_cases hq : q = place
  · rw [if_pos hq]
    cases t.lookup q with
    | none => simp
    | some e => simp [hkind]
  · rw [if_neg hq]

/-- The permissions of the file are set, and nothing else changes. -/
theorem lookup_setAccess (t : FileTree) {path : Text} {place : List Text}
    (hfind : t.find path = some place) (q : List Text) :
    ((t.setWritable path).setReadable path).lookup q =
      if q = place then
        (t.lookup q).map fun e => { e with readable := true, writable := true }
      else t.lookup q := by
  have hwritable : t.setWritable path = t.update place fun e => { e with writable := true } := by
    rw [FileTree.setWritable, hfind]
    rfl
  have hagain := find_update t place (fun e => { e with writable := true }) (fun _ => rfl) path
  have hfirst := FileTree.lookup_update t place (fun e => { e with writable := true })
    (fun _ => rfl) q
  have hsecond := FileTree.lookup_update (t.update place fun e => { e with writable := true }) place
    (fun e => { e with readable := true }) (fun _ => rfl) q
  rw [FileTree.setReadable, hwritable, hagain, hfind, Option.elim_some, hsecond, hfirst]
  by_cases hq : q = place
  · rw [if_pos hq, if_pos hq, if_pos hq, Option.map_map]
    rfl
  · rw [if_neg hq, if_neg hq, if_neg hq]

/-- Permissions move nothing. -/
theorem find_setAccess (t : FileTree) {path : Text} {place : List Text}
    (hfind : t.find path = some place) (path' : Text) :
    ((t.setWritable path).setReadable path).find path' = t.find path' := by
  have hwritable : t.setWritable path = t.update place fun e => { e with writable := true } := by
    rw [FileTree.setWritable, hfind]
    rfl
  have hfirst := find_update t place (fun e => { e with writable := true }) (fun _ => rfl)
  have hsecond := find_update (t.update place fun e => { e with writable := true }) place
    (fun e => { e with readable := true }) (fun _ => rfl)
  rw [FileTree.setReadable, hwritable, hfirst, hfind, Option.elim_some, hsecond, hfirst]

/-- What `createDocument` answers, and the tree it leaves, when the system did its part. -/
theorem createDocument_created {created : Bool} {t' : FileTree} {inst : Text}
    (hparent : p.getFileForDocId docId = some parentFile)
    (hinst : p.getInstanceForDocId docId = some inst)
    (hcreate : t.createNewFile refuses (FilePath.child parentFile displayName) = some (created, t')) :
    p.createDocument refuses t docId mimeType displayName =
      ⟨p.getDocIdForFile inst (FilePath.child parentFile displayName),
        [FilePath.child parentFile displayName],
        (t'.setWritable (FilePath.child parentFile displayName)).setReadable
          (FilePath.child parentFile displayName)⟩ := by
  unfold createDocument
  simp only [hparent, hinst, hcreate]

/-- A creation that is refused leaves the tree, and ends in an error. -/
theorem createDocument_refused (hparent : p.getFileForDocId docId = some parentFile)
    (hcreate : t.createNewFile refuses (FilePath.child parentFile displayName) = none) :
    (∃ e, (p.createDocument refuses t docId mimeType displayName).result = .error e) ∧
      (p.createDocument refuses t docId mimeType displayName).tree = t := by
  unfold createDocument
  simp only [hparent, hcreate]
  exact ⟨⟨_, rfl⟩, trivial⟩

/-- The document ids of known files name an instance of the registry. -/
theorem named_of_file (hparent : p.getFileForDocId docId = some parentFile) :
    ∃ inst rel, p.getInstanceForDocId docId = some inst ∧ inst ∈ p.instances ∧ ':' ∉ inst ∧
      parentFile = FilePath.child (p.publicDirectory inst) rel := by
  unfold getFileForDocId at hparent
  obtain ⟨⟨id, rel⟩, hparts, hrest⟩ := Option.bind_eq_some_iff.mp hparent
  obtain ⟨inst, hinst, hfile⟩ := Option.bind_eq_some_iff.mp hrest
  have hknown := getInstance_id hinst
  have hfree := (parts_eq_some hparts).2
  rw [hknown] at hinst
  refine ⟨inst, rel, ?_, ?_, by rwa [hknown], (Option.some.inj hfile).symm⟩
  · unfold getInstanceForDocId
    rw [hparts, hknown]
    exact hinst
  · rw [hknown]
    exact getInstance_eq_some.mp hinst

/-- Where the path of a new document leads once it is made. -/
theorem find_created {place : List Text} (hputtable : t.Puttable place FileTree.newFile)
    (hplace : t.lookup place = none) (hfind : t.find path = some place) :
    (t.put place FileTree.newFile hputtable).find path = some place := by
  refine Eq.trans (FileTree.locate_congr (fun q => ?_) _ _) hfind
  rw [FileTree.isDirectory_iff, FileTree.isDirectory_iff, FileTree.lookup_put]
  by_cases hq : q = place
  · rw [if_pos hq, hq, hplace]
    simp [FileTree.newFile]
  · rw [if_neg hq]

/-- **A call that found an entry** under the name makes none. -/
theorem not_created (place : List Text) {o : Outcome Text} (hok : ∀ e, o.result ≠ .error e)
    (htree : ∀ q, o.tree.lookup q =
      if q = place then (t.lookup q).map fun e => { e with readable := true, writable := true }
      else t.lookup q) : ¬CreatedAsAsked p t parent mimeType o := by
  rintro (⟨⟨e, he⟩, -⟩ | ⟨name, e, hnone, -, hlookup, -⟩)
  · exact hok e he
  · have hnew := hlookup (parent ++ [name])
    rw [if_pos rfl, htree, hnone] at hnew
    split at hnew
    · cases hnew
    · cases hnew

/-- **A call that made a file**, at the place its path leads to. -/
theorem created_iff {place : List Text} {hputtable : t.Puttable place FileTree.newFile}
    {o : Outcome Text} {file : Text} (hok : o.result = .ok docId)
    (hfile : p.getFileForDocId docId = some file) (hfind : o.tree.find file = some place)
    (hplace : t.lookup place = none)
    (htree : ∀ q, o.tree.lookup q = (t.put place FileTree.newFile hputtable).lookup q) :
    CreatedAsAsked p t parent mimeType o ↔
      mimeType ≠ MIME_TYPE_DIR ∧ ∃ name, place = parent ++ [name] := by
  constructor
  · rintro (⟨⟨e, he⟩, -⟩ | ⟨name, e, hnone, hkind, hlookup, -⟩)
    · rw [hok] at he
      cases he
    · have hnew := hlookup (parent ++ [name])
      rw [if_pos rfl, htree, FileTree.lookup_put, hnone] at hnew
      split at hnew
      · next hsame =>
        rw [← Option.some.inj hnew] at hkind
        refine ⟨fun hdir => ?_, name, hsame.symm⟩
        exact absurd (hkind.mpr hdir) (by simp [FileTree.newFile])
      · cases hnew
  · rintro ⟨hmime, name, rfl⟩
    refine .inr ⟨name, FileTree.newFile, hplace, ?_, fun q => ?_, docId, file, hok, hfile, hfind⟩
    · exact iff_of_false (by simp [FileTree.newFile]) hmime
    · rw [htree, FileTree.lookup_put]

/-- **What createDocument leaves**: for every parent document, mime type and display name, and
whatever the system refuses, the call throws and changes nothing or makes exactly the child
that was asked for and answers its id, exactly when it can. This is so for the directory the
parent's id leads to, and for any other in its place.

SOURCE: InstanceFilesProvider.kt:80-110 -/
theorem document_created_iff (p : InstanceFilesProvider) (refuses : Text → Bool) (t : FileTree)
    (docId mimeType displayName parentFile : Text) (parent : List Text)
    (hparent : p.getFileForDocId docId = some parentFile) :
    CreatedAsAsked p t parent mimeType (p.createDocument refuses t docId mimeType displayName) ↔
      CanCreate refuses t parent mimeType (FilePath.child parentFile displayName) := by
  obtain ⟨inst, rel, hinst, hmem, hid, hpath⟩ := named_of_file hparent
  obtain ⟨newId, file, hnewId, hfile, hcomponents⟩ := getDocIdForFile_leads hmem hid
    (hpath ▸ child_child_cases p inst rel displayName)
  rcases FileTree.createNewFile_cases refuses t (FilePath.child parentFile displayName) with
    ⟨hrefused, hwhy⟩ | ⟨place, hallowed, hplace, ⟨htaken, hcreate⟩ | ⟨hfree, hputtable, hcreate⟩⟩
  · exact iff_of_true (.inl (createDocument_refused hparent hrefused)) (hwhy.imp_right .inl)
  · -- the name is taken
    refine iff_of_false (not_created place ?_ fun q => ?_) ?_
    · rw [createDocument_created hparent hinst hcreate, hnewId]
      intro e he
      cases he
    · rw [createDocument_created hparent hinst hcreate]
      exact lookup_setAccess t hplace q
    · rintro (h | h | ⟨-, name, h, hnone⟩)
      · rw [hallowed] at h
        cases h
      · rw [hplace] at h
        cases h
      · rw [hplace] at h
        rw [← Option.some.inj h] at hnone
        exact htaken hnone
  · -- a file is made
    have hmade := find_created hputtable hfree hplace
    have htree : ∀ q, (p.createDocument refuses t docId mimeType displayName).tree.lookup q =
        (t.put place FileTree.newFile hputtable).lookup q := by
      intro q
      rw [createDocument_created hparent hinst hcreate, lookup_setAccess _ hmade]
      split
      · next hq =>
        rw [hq, FileTree.lookup_put, if_pos rfl]
        rfl
      · rfl
    have hleads : (p.createDocument refuses t docId mimeType displayName).tree.find file =
        some place := by
      rw [createDocument_created hparent hinst hcreate, find_setAccess _ hmade, FileTree.find,
        hcomponents]
      exact hmade
    have hok : (p.createDocument refuses t docId mimeType displayName).result = .ok newId := by
      rw [createDocument_created hparent hinst hcreate, hnewId]
    rw [created_iff hok hfile hleads hfree htree]
    constructor
    · rintro ⟨hmime, name, rfl⟩
      exact .inr (.inr ⟨hmime, name, hplace, hfree⟩)
    · rintro (h | h | ⟨hmime, name, h, -⟩)
      · rw [hallowed] at h
        cases h
      · rw [hplace] at h
        cases h
      · rw [hplace] at h
        exact ⟨hmime, name, Option.some.inj h⟩

/-- A text file in an empty directory. -/
theorem document_created_iff_note :
    CreatedAsAsked twoPrinters secretTree
        ["data".toList, "files".toList, "instance".toList, "7c".toList, "public".toList]
        "text/plain".toList
        (twoPrinters.createDocument (fun _ => false) secretTree "instance:7c:".toList
          "text/plain".toList "note.txt".toList) ↔
      CanCreate (fun _ => false) secretTree
        ["data".toList, "files".toList, "instance".toList, "7c".toList, "public".toList]
        "text/plain".toList
        (FilePath.child (twoPrinters.publicDirectory "7c".toList) "note.txt".toList) :=
  document_created_iff twoPrinters (fun _ => false) secretTree _ _ _ _ _ (by decide +kernel)

/-- **Not every document is created as asked**: asked for a directory, the provider makes a
file. -/
theorem document_not_created :
    ¬∀ (p : InstanceFilesProvider) (refuses : Text → Bool) (t : FileTree)
      (docId mimeType displayName parentFile : Text) (parent : List Text),
      p.getFileForDocId docId = some parentFile → t.find parentFile = some parent →
        CreatedAsAsked p t parent mimeType
          (p.createDocument refuses t docId mimeType displayName) := by
  intro h
  have hcreated := h twoPrinters (fun _ => false) secretTree "instance:7c:".toList MIME_TYPE_DIR
    "models".toList (twoPrinters.publicDirectory "7c".toList)
    ["data".toList, "files".toList, "instance".toList, "7c".toList, "public".toList]
    (by decide +kernel) (by decide +kernel)
  have hok : (twoPrinters.createDocument (fun _ => false) secretTree "instance:7c:".toList
      MIME_TYPE_DIR "models".toList).result.toBool := by decide +kernel
  have hfile : (twoPrinters.createDocument (fun _ => false) secretTree "instance:7c:".toList
      MIME_TYPE_DIR "models".toList).tree.lookup ["data".toList, "files".toList,
        "instance".toList, "7c".toList, "public".toList, "models".toList] =
          some FileTree.newFile := by decide +kernel
  have hfresh : secretTree.lookup ["data".toList, "files".toList, "instance".toList, "7c".toList,
      "public".toList, "models".toList] = none := by decide +kernel
  rcases hcreated with ⟨⟨e, he⟩, -⟩ | ⟨name, e, -, hkind, hlookup, -⟩
  · rw [he] at hok
    cases hok
  · have hnew := hlookup ["data".toList, "files".toList, "instance".toList, "7c".toList,
      "public".toList, "models".toList]
    rw [hfile, hfresh] at hnew
    split at hnew
    · rw [← Option.some.inj hnew] at hkind
      exact absurd (hkind.mpr rfl) (by simp [FileTree.newFile])
    · cases hnew

end Cream.Model.InstanceFilesProvider
