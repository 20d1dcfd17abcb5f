import Cream.Analysis.DocumentIds

/-!
# What a document id can reach

`InstanceFilesProvider.kt`: the path of a document id is joined to the public directory of the
instance it names, and the display name of a new document to the path of its parent. Neither is
looked at: a path that goes up by `..` is followed wherever it leads. `documents_contained_iff`
says for which ids and names a call stays in the public directory.
-/

set_option autoImplicit false

namespace Cream.Model.InstanceFilesProvider

open Cream.Library

/-- The calls that take a document id. -/
inductive Request where
  | queryDocument (documentId : Text)
  | queryChildDocuments (parentDocumentId : Text)
  | openDocument (documentId mode : Text)
  | openDocumentThumbnail (documentId : Text)
  | createDocument (documentId mimeType displayName : Text)
  | deleteDocument (documentId : Text)

variable (p : InstanceFilesProvider) (refuses : Text → Bool) (t : FileTree)

/-- A call that fails, or touches only files in the public directory of the instance that its
document id names. -/
def Outcome.Contained {α : Type} (o : Outcome α) (documentId : Text) : Prop :=
  (∃ e, o.result = .error e) ∨
    ∀ path ∈ o.touched, ∃ inst, p.getInstanceForDocId documentId = some inst ∧
      FilePath.Inside (p.publicDirectory inst) path

/-- What the provider does with a request stays in the instance's public directory. -/
def Contained : Request → Prop
  | .queryDocument docId => (p.queryDocument t docId).Contained p docId
  | .queryChildDocuments docId => (p.queryChildDocuments t docId).Contained p docId
  | .openDocument docId mode => (p.openDocument refuses t docId mode).Contained p docId
  | .openDocumentThumbnail docId => (p.openDocumentThumbnail refuses t docId).Contained p docId
  | .createDocument docId mimeType displayName =>
    (p.createDocument refuses t docId mimeType displayName).Contained p docId
  | .deleteDocument docId => (p.deleteDocument refuses t docId).Contained p docId

/-- The path of a document id, and a name after it, do not leave the public directory. -/
def StaysIn (docId name : Text) : Prop :=
  ∀ id rel inst, parts docId = some (id, rel) → p.getInstance id = some inst →
    FilePath.Stays (p.publicDirectory inst) (FilePath.components rel ++ FilePath.components name)

/-- The requests that the provider keeps in the public directory: those whose path stays there,
and those that come to nothing because the mode is none or the system refuses. -/
def Safe : Request → Prop
  | .queryDocument docId => StaysIn p docId []
  | .queryChildDocuments docId => StaysIn p docId []
  | .openDocument docId mode =>
    StaysIn p docId [] ∨ ∀ file, p.getFileForDocId docId = some file →
      ∀ accessMode, p.parseMode mode = .ok accessMode →
        t.openFile refuses file accessMode = none
  | .openDocumentThumbnail docId =>
    StaysIn p docId [] ∨
      ∀ file, p.getFileForDocId docId = some file → t.openFile refuses file MODE_READ_ONLY = none
  | .createDocument docId _ displayName =>
    StaysIn p docId displayName ∨
      ∀ parent, p.getFileForDocId docId = some parent →
        t.createNewFile refuses (FilePath.child parent displayName) = none
  | .deleteDocument docId =>
    StaysIn p docId [] ∨
      ∀ file, p.getFileForDocId docId = some file → t.delete refuses file = none

variable {p refuses t}
variable {α : Type} {docId name file : Text} {o : Outcome α}

/-! ## One path -/

/-- What a document id leads to: nothing, or a path in the directory of its instance. -/
theorem file_cases (p : InstanceFilesProvider) (docId : Text) :
    (p.getFileForDocId docId = none ∧ ∀ name, StaysIn p docId name) ∨
      ∃ inst rel, p.getInstanceForDocId docId = some inst ∧
        p.getFileForDocId docId = some (FilePath.child (p.publicDirectory inst) rel) ∧
        ∀ name, StaysIn p docId name ↔ FilePath.Stays (p.publicDirectory inst)
          (FilePath.components rel ++ FilePath.components name) := by
  cases hparts : parts docId with
  | none =>
    refine .inl ⟨?_, fun name id rel inst h => ?_⟩
    · rw [getFileForDocId, hparts]
      rfl
    · rw [hparts] at h
      cases h
  | some pair =>
    obtain ⟨id, rel⟩ := pair
    cases hinst : p.getInstance id with
    | none =>
      refine .inl ⟨?_, fun name id' rel' inst h hknown => ?_⟩
      · rw [getFileForDocId, hparts]
        simp only [Option.bind_eq_bind, Option.bind_some, hinst, Option.bind_none]
      · rw [hparts] at h
        cases h
        rw [hinst] at hknown
        cases hknown
    | some inst =>
      refine .inr ⟨inst, rel, ?_, ?_, fun name => ⟨fun h => h id rel inst hparts hinst, ?_⟩⟩
      · rw [getInstanceForDocId, hparts]
        exact hinst
      · rw [getFileForDocId, hparts]
        simp only [Option.bind_eq_bind, Option.bind_some, hinst]
        rfl
      · intro h id' rel' inst' hparts' hinst'
        rw [hparts] at hparts'
        cases hparts'
        rw [hinst] at hinst'
        cases hinst'
        exact h

/-- A call that succeeds and touches one file. -/
theorem contained_ok {inst : Text} {a : α} {t' : FileTree}
    (hinst : p.getInstanceForDocId docId = some inst) :
    (Outcome.mk (.ok a) [file] t').Contained p docId ↔
      FilePath.Inside (p.publicDirectory inst) file := by
  constructor
  · rintro (⟨e, he⟩ | h)
    · cases he
    · obtain ⟨inst', hinst', hinside⟩ := h file List.mem_cons_self
      rw [hinst] at hinst'
      cases hinst'
      exact hinside
  · intro h
    refine .inr fun path hpath => ⟨inst, hinst, ?_⟩
    rw [List.mem_singleton.mp hpath]
    exact h

/-- A path of a document id stays inside where its segments do. -/
theorem inside_child {inst rel : Text} :
    FilePath.Inside (p.publicDirectory inst) (FilePath.child (p.publicDirectory inst) rel) ↔
      FilePath.Stays (p.publicDirectory inst)
        (FilePath.components rel ++ FilePath.components []) := by
  rw [FilePath.components_nil, List.append_nil]
  exact FilePath.inside_iff (FilePath.components_child _ _)

/-! ## The calls -/

/-- `queryDocument` never fails, so its path has to stay inside. -/
theorem queryDocument_contained :
    (p.queryDocument t docId).Contained p docId ↔ StaysIn p docId [] := by
  unfold queryDocument
  rcases file_cases p docId with ⟨hnone, hstays⟩ | ⟨inst, rel, hinst, hfile, hstays⟩
  · rw [hnone]
    refine iff_of_true (.inr fun path hpath => ?_) (hstays [])
    cases hpath
  · rw [hfile, hstays, ← inside_child]
    exact contained_ok hinst

/-- The id of a path that begins with the public directory can be made. -/
theorem getDocIdForFile_isPrefix {inst path : Text} (h : p.publicDirectory inst <+: path) :
    ∃ docId, p.getDocIdForFile inst path = .ok docId := by
  obtain ⟨-, -, hlast⟩ := publicDirectory_plain p inst
  obtain ⟨rest, rfl⟩ := h
  unfold getDocIdForFile
  dsimp only
  split
  · exact ⟨_, rfl⟩
  · next hother =>
    have hlong : (p.publicDirectory inst).length + 1 ≤ (p.publicDirectory inst ++ rest).length := by
      cases rest with
      | nil => exact absurd (List.append_nil _).symm hother
      | cons c rest =>
        rw [List.length_append, List.length_cons]
        omega
    simp only [substring, if_pos hlong]
    exact ⟨_, rfl⟩

/-- Rows are made of files whose ids can be made. -/
theorem mapM_ok {β : Type} {f : α → Except Exn β} {as : List α} (h : ∀ a ∈ as, ∃ b, f a = .ok b) :
    ∃ bs, as.mapM f = .ok bs := by
  induction as with
  | nil => exact ⟨[], rfl⟩
  | cons a as ih =>
    obtain ⟨b, hb⟩ := h a List.mem_cons_self
    obtain ⟨bs, hbs⟩ := ih fun a ha => h a (List.mem_cons_of_mem _ ha)
    refine ⟨b :: bs, ?_⟩
    rw [List.mapM_cons, hb, hbs]
    rfl

/-- Neither does `queryChildDocuments`. -/
theorem queryChildDocuments_contained :
    (p.queryChildDocuments t docId).Contained p docId ↔ StaysIn p docId [] := by
  unfold queryChildDocuments
  rcases file_cases p docId with ⟨hnone, hstays⟩ | ⟨inst, rel, hinst, hfile, hstays⟩
  · rw [hnone]
    refine iff_of_true (.inr fun path hpath => ?_) (hstays [])
    cases hpath
  · rw [hfile, hstays, ← inside_child]
    cases hlist : t.listFiles (FilePath.child (p.publicDirectory inst) rel) with
    | none =>
      simp only [hlist]
      exact contained_ok hinst
    | some names =>
      have hnames : ∀ name ∈ names, IsFileName name :=
        fun name hname => FileTree.isFileName_of_listFiles hlist hname
      simp only [hlist, hinst]
      obtain ⟨rows, hrows⟩ : ∃ rows, (names.map (FilePath.resolve
          (FilePath.child (p.publicDirectory inst) rel))).mapM (fun file => do
            return p.rowOf t (← p.getDocIdForFile inst file) file) = .ok rows := by
        refine mapM_ok fun file hmem => ?_
        obtain ⟨name, hname, rfl⟩ := List.mem_map.mp hmem
        obtain ⟨id, hid⟩ := getDocIdForFile_isPrefix
          ((FilePath.child_isPrefix (publicDirectory_plain p inst).1 rel).trans
            (FilePath.resolve_isPrefix _ name))
        rw [hid]
        exact ⟨_, rfl⟩
      rw [hrows]
      constructor
      · rintro (⟨e, he⟩ | h)
        · cases he
        · obtain ⟨inst', hinst', hinside⟩ := h _ List.mem_cons_self
          rw [hinst] at hinst'
          cases hinst'
          exact hinside
      · intro h
        refine .inr fun path hpath => ⟨inst, hinst, ?_⟩
        rcases List.mem_cons.mp hpath with rfl | hpath
        · exact h
        · obtain ⟨name, hname, rfl⟩ := List.mem_map.mp hpath
          unfold FilePath.Inside
          rw [FilePath.canonical_resolve (hnames name hname)]
          exact h.trans (List.prefix_append _ _)

/-- **A call that asks the system once**, for the path of its document id with a name after it:
it is contained when the path stays in the directory or the system refuses. -/
theorem contained_call (path : Text → Text) {refused : Text → Prop}
    (hpath : ∀ file, FilePath.components (path file) =
      FilePath.components file ++ FilePath.components name)
    (hnone : p.getFileForDocId docId = none → ∃ e, o.result = .error e)
    (hrefused : ∀ file, p.getFileForDocId docId = some file → refused file →
      ∃ e, o.result = .error e)
    (hdone : ∀ file inst, p.getFileForDocId docId = some file →
      p.getInstanceForDocId docId = some inst → p.publicDirectory inst <+: file → ¬refused file →
        ∃ a t', o = ⟨.ok a, [path file], t'⟩) :
    o.Contained p docId ↔
      StaysIn p docId name ∨ ∀ file, p.getFileForDocId docId = some file → refused file := by
  rcases file_cases p docId with ⟨hfile, hstays⟩ | ⟨inst, rel, hinst, hfile, hstays⟩
  · exact iff_of_true (.inl (hnone hfile)) (.inl (hstays name))
  · by_cases hcall : refused (FilePath.child (p.publicDirectory inst) rel)
    · refine iff_of_true (.inl (hrefused _ hfile hcall)) (.inr fun file hsame => ?_)
      rw [← Option.some.inj (hfile.symm.trans hsame)]
      exact hcall
    · have hbelow := FilePath.child_isPrefix (publicDirectory_plain p inst).1 rel
      obtain ⟨a, t', ho⟩ := hdone _ inst hfile hinst hbelow hcall
      have hcomponents : FilePath.components (path (FilePath.child (p.publicDirectory inst) rel)) =
          FilePath.components (p.publicDirectory inst) ++
            (FilePath.components rel ++ FilePath.components name) := by
        rw [hpath, FilePath.components_child, List.append_assoc]
      rw [ho, contained_ok hinst, FilePath.inside_iff hcomponents, hstays]
      exact ⟨.inl, fun h => h.resolve_right fun hall => hcall (hall _ hfile)⟩

/-- `openDocument` is contained where its path is, or it opens nothing. -/
theorem openDocument_contained {mode : Text} :
    (p.openDocument refuses t docId mode).Contained p docId ↔
      StaysIn p docId [] ∨ ∀ file, p.getFileForDocId docId = some file →
        ∀ accessMode, p.parseMode mode = .ok accessMode →
          t.openFile refuses file accessMode = none := by
  refine contained_call id (fun file => (List.append_nil _).symm) ?_ ?_ ?_
  · intro hnone
    unfold openDocument
    cases p.parseMode mode with
    | error message => exact ⟨_, rfl⟩
    | ok accessMode =>
      simp only [hnone]
      exact ⟨_, rfl⟩
  · intro file hfile hrefused
    unfold openDocument
    cases hmode : p.parseMode mode with
    | error message => exact ⟨_, rfl⟩
    | ok accessMode =>
      simp only [hfile, hrefused accessMode hmode]
      split
      · exact ⟨_, rfl⟩
      · exact ⟨_, rfl⟩
  · intro file inst hfile hinst hbelow hopens
    unfold openDocument
    cases hmode : p.parseMode mode with
    | error message =>
      refine absurd (fun accessMode h => ?_) hopens
      rw [hmode] at h
      cases h
    | ok accessMode =>
      cases hopen : t.openFile refuses file accessMode with
      | none =>
        refine absurd (fun accessMode' h => ?_) hopens
        rw [hmode] at h
        rw [← Except.ok.inj h]
        exact hopen
      | some t' =>
        simp only [hfile, hopen]
        exact ⟨_, _, rfl⟩

/-- So is `openDocumentThumbnail`. -/
theorem openDocumentThumbnail_contained :
    (p.openDocumentThumbnail refuses t docId).Contained p docId ↔
      StaysIn p docId [] ∨ ∀ file, p.getFileForDocId docId = some file →
        t.openFile refuses file MODE_READ_ONLY = none := by
  unfold openDocumentThumbnail
  refine contained_call id (fun file => (List.append_nil _).symm) ?_ ?_ ?_
  · intro hnone
    simp only [hnone]
    exact ⟨_, rfl⟩
  · intro file hfile hrefused
    simp only [hfile, hrefused]
    exact ⟨_, rfl⟩
  · intro file inst hfile hinst hbelow hopens
    obtain ⟨t', hopen⟩ := Option.ne_none_iff_exists'.mp hopens
    simp only [hfile, hopen]
    exact ⟨_, _, rfl⟩

/-- `createDocument` is where the path with the name stays inside, or it creates nothing. -/
theorem createDocument_contained {mimeType displayName : Text} :
    (p.createDocument refuses t docId mimeType displayName).Contained p docId ↔
      StaysIn p docId displayName ∨ ∀ parent, p.getFileForDocId docId = some parent →
        t.createNewFile refuses (FilePath.child parent displayName) = none := by
  unfold createDocument
  refine contained_call (fun parent => FilePath.child parent displayName)
    (fun file => FilePath.components_child file displayName) ?_ ?_ ?_
  · intro hnone
    simp only [hnone]
    exact ⟨_, rfl⟩
  · intro parent hparent hrefused
    simp only [hparent, hrefused]
    exact ⟨_, rfl⟩
  · intro parent inst hparent hinst hbelow hcreates
    obtain ⟨⟨created, t'⟩, hcreate⟩ := Option.ne_none_iff_exists'.mp hcreates
    have hne : parent ≠ [] := by
      rintro rfl
      exact (publicDirectory_plain p inst).1 (List.prefix_nil.mp hbelow)
    obtain ⟨id, hid⟩ := getDocIdForFile_isPrefix
      (hbelow.trans (FilePath.child_isPrefix hne displayName))
    simp only [hparent, hcreate, hinst, hid]
    exact ⟨_, _, rfl⟩

/-- `deleteDocument` is where its path stays inside, or it deletes nothing. -/
theorem deleteDocument_contained :
    (p.deleteDocument refuses t docId).Contained p docId ↔
      StaysIn p docId [] ∨ ∀ file, p.getFileForDocId docId = some file →
        t.delete refuses file = none := by
  unfold deleteDocument
  refine contained_call id (fun file => (List.append_nil _).symm) ?_ ?_ ?_
  · intro hnone
    simp only [hnone]
    exact ⟨_, rfl⟩
  · intro file hfile hrefused
    simp only [hfile, hrefused]
    exact ⟨_, rfl⟩
  · intro file inst hfile hinst hbelow hdeletes
    obtain ⟨t', hdelete⟩ := Option.ne_none_iff_exists'.mp hdeletes
    simp only [hfile, hdelete]
    exact ⟨_, _, rfl⟩

/-! ## Containment -/

/-- The directories and files of two instances, and a file beside the instances. -/
def secretTree : FileTree :=
  FileTree.empty.putAll [("/data".toList, .directory), ("/data/files".toList, .directory),
    ("/data/files/secret".toList, .file [115]), ("/data/files/instance".toList, .directory),
    ("/data/files/instance/7c".toList, .directory),
    ("/data/files/instance/7c/public".toList, .directory)]

/-- **What a document id can reach**: for every registry, file tree and request, the call fails
or touches only files in the public directory of the instance its id names, exactly when the
request is safe.

SOURCE: InstanceFilesProvider.kt:41-99 -/
theorem documents_contained_iff (p : InstanceFilesProvider) (refuses : Text → Bool) (t : FileTree)
    (r : Request) : Contained p refuses t r ↔ Safe p refuses t r := by
  cases r with
  | queryDocument docId => exact queryDocument_contained
  | queryChildDocuments docId => exact queryChildDocuments_contained
  | openDocument docId mode => exact openDocument_contained
  | openDocumentThumbnail docId => exact openDocumentThumbnail_contained
  | createDocument docId mimeType displayName => exact createDocument_contained
  | deleteDocument docId => exact deleteDocument_contained

/-- **Not every request is contained**: the id `instance:7c:../../../secret` opens a file beside
the instances. -/
theorem documents_not_contained :
    ¬∀ (p : InstanceFilesProvider) (refuses : Text → Bool) (t : FileTree) (r : Request),
      Contained p refuses t r := by
  intro h
  have hcontained := h twoPrinters (fun _ => false) secretTree
    (.openDocument "instance:7c:../../../secret".toList "r".toList)
  have hopens : (twoPrinters.openDocument (fun _ => false) secretTree
      "instance:7c:../../../secret".toList "r".toList).touched =
        ["/data/files/instance/7c/public/../../../secret".toList] := by decide +kernel
  rcases hcontained with ⟨e, he⟩ | hinside
  · have hok : (twoPrinters.openDocument (fun _ => false) secretTree
        "instance:7c:../../../secret".toList "r".toList).result.toBool := by decide +kernel
    rw [he] at hok
    cases hok
  · rw [hopens] at hinside
    obtain ⟨inst, hinst, hin⟩ := hinside _ List.mem_cons_self
    have hnamed : twoPrinters.getInstanceForDocId "instance:7c:../../../secret".toList =
        some "7c".toList := by decide +kernel
    rw [hnamed] at hinst
    rw [← Option.some.inj hinst] at hin
    exact absurd hin (by decide +kernel)

end Cream.Model.InstanceFilesProvider
