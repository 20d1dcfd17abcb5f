import Cream.Model.InstanceFilesProvider

/-!
# Document ids name files

`InstanceFilesProvider.kt`: `getDocIdForFile` makes an id of an instance and the path of a
file relative to the instance's public directory; `getInstanceForDocId` and
`getFileForDocId` read it. The id of an instance has no `':'`, so the first one in a document
id ends it, whatever the names of the files hold.
-/

set_option autoImplicit false

namespace Cream.Model.InstanceFilesProvider

open Cream.Library

variable {p : InstanceFilesProvider} {id f rel docId : Text}

/-- A file at or below a directory: the path of a `File` is normal. -/
def AtOrBelow (dir f : Text) : Prop :=
  f = dir ∨ ∃ rel, rel ≠ [] ∧ f = dir ++ '/' :: rel ∧ FilePath.normalize f = f

/-! ## The parts of an id -/

/-- **The parts of a document id.** -/
theorem parts_docId (hid : ':' ∉ id) (rel : Text) :
    parts (PREFIX ++ id ++ ':' :: rel) = some (id, rel) := by
  have hall : ∀ c ∈ id, (c != ':') = true := fun c hc => by
    simpa using fun h : c = ':' => hid (h ▸ hc)
  have hmem : ':' ∈ id ++ ':' :: rel := List.mem_append_right _ List.mem_cons_self
  unfold parts
  rw [List.append_assoc, List.dropPrefix?_append_of_beq _ (beq_self_eq_true _),
    Option.bind_eq_bind, Option.bind_some, if_pos hmem, List.takeWhile_append_of_pos hall,
    List.dropWhile_append_of_pos hall]
  simp

/-- What has parts is made of them. -/
theorem parts_eq_some (h : parts docId = some (id, rel)) :
    docId = PREFIX ++ id ++ ':' :: rel ∧ ':' ∉ id := by
  unfold parts at h
  obtain ⟨str, hstr, hparts⟩ := Option.bind_eq_some_iff.mp h
  obtain ⟨t, hdoc, heq⟩ := List.dropPrefix?_eq_some_iff.mp hstr
  split at hparts
  · next hmem =>
    obtain ⟨rfl, rfl⟩ := Prod.mk.inj (Option.some.inj hparts)
    have hfree : ':' ∉ str.takeWhile (· != ':') := fun hmem => by
      simpa using List.mem_takeWhile_imp hmem
    refine ⟨?_, hfree⟩
    have hsplit := List.takeWhile_append_dropWhile (p := (· != ':')) (l := str)
    have hrest : str.dropWhile (· != ':') = ':' :: (str.dropWhile (· != ':')).tail := by
      cases hrest : str.dropWhile (· != ':') with
      | nil =>
        rw [hrest, List.append_nil] at hsplit
        rw [← hsplit] at hmem
        exact absurd hmem hfree
      | cons c r =>
        have hc := List.head?_dropWhile_not (· != ':') str
        rw [hrest] at hc
        obtain rfl : c = ':' := by simpa using hc
        rfl
    rw [hdoc, eq_of_beq heq, List.append_assoc, ← hrest, hsplit]
  · cases hparts

/-- An instance that is known is found. -/
theorem getInstance_eq_some : p.getInstance id = some id ↔ id ∈ p.instances := by
  unfold getInstance
  rw [List.find?_eq_some_iff_append]
  constructor
  · rintro ⟨-, as, bs, h, -⟩
    rw [h]
    simp
  · intro hmem
    obtain ⟨as, bs, h, hfirst⟩ := List.eq_append_cons_of_mem hmem
    exact ⟨by simp, as, bs, h, fun a ha => by simpa using fun heq : a = id => hfirst (heq ▸ ha)⟩

/-- An instance is found for its own id. -/
theorem getInstance_id {id' : Text} (h : p.getInstance id = some id') : id' = id := by
  simpa using List.find?_some h

/-! ## The public directory -/

/-- The public directory has its name. -/
theorem publicDirectory_eq (p : InstanceFilesProvider) (id : Text) :
    ∃ base, p.publicDirectory id = base ++ "public".toList := by
  have hnormal : FilePath.normalize "public".toList = "public".toList := by decide +kernel
  have hhead : "public".toList.head? ≠ some '/' := by decide +kernel
  have hplain : ¬("public".toList = [] ∨ "public".toList = ['/']) := by decide +kernel
  unfold publicDirectory FilePath.child FilePath.resolve
  rw [hnormal, if_neg hplain, if_neg hhead]
  split
  · exact ⟨[], rfl⟩
  · split
    · exact ⟨p.directory id, rfl⟩
    · exact ⟨p.directory id ++ ['/'], by rw [List.append_assoc, List.singleton_append]⟩

/-- It is neither empty nor the root, and ends with no slash. -/
theorem publicDirectory_plain (p : InstanceFilesProvider) (id : Text) :
    p.publicDirectory id ≠ [] ∧ p.publicDirectory id ≠ ['/'] ∧
      (p.publicDirectory id).getLast? ≠ some '/' := by
  obtain ⟨base, hbase⟩ := publicDirectory_eq p id
  have hlast : (p.publicDirectory id).getLast? = some 'c' := by
    rw [hbase, List.getLast?_append]
    rfl
  refine ⟨fun h => ?_, fun h => ?_, fun h => ?_⟩
  · rw [h] at hlast
    cases hlast
  · rw [h] at hlast
    exact absurd hlast (by decide)
  · rw [h] at hlast
    exact absurd hlast (by decide)

/-- **The id of a file** and the path in it. -/
theorem getDocIdForFile_eq (h : AtOrBelow (p.publicDirectory id) f) :
    ∃ rel, p.getDocIdForFile id f = .ok (PREFIX ++ id ++ ':' :: rel) ∧
      FilePath.child (p.publicDirectory id) rel = f := by
  obtain ⟨hne, hroot, hlast⟩ := publicDirectory_plain p id
  unfold getDocIdForFile
  rcases h with rfl | ⟨rel, hrel, hf, hnormal⟩
  · refine ⟨[], ?_, FilePath.child_nil hne⟩
    rw [if_pos rfl]
    rfl
  · have hother : p.publicDirectory id ≠ f := by
      intro heq
      have hlength := congrArg List.length (heq.trans hf)
      rw [List.length_append, List.length_cons] at hlength
      omega
    have hlong : (p.publicDirectory id).length + 1 ≤ f.length := by
      rw [hf, List.length_append, List.length_cons]
      omega
    have hdrop : f.drop ((p.publicDirectory id).length + 1) = rel := by
      rw [hf, List.drop_append, List.drop_eq_nil_of_le (Nat.le_succ _), List.nil_append,
        Nat.add_sub_cancel_left]
      rfl
    refine ⟨rel, ?_, ?_⟩
    · dsimp only
      rw [if_neg hother, if_neg hlast, substring, if_pos hlong, hdrop]
      rfl
    · rw [hf] at hnormal
      rw [FilePath.child_of_normalize hne hroot hnormal hrel, hf]

/-- What an id made of an instance and a path is read as. -/
theorem read_docId (hmem : id ∈ p.instances) (hid : ':' ∉ id) (rel : Text) :
    p.getFileForDocId (PREFIX ++ id ++ ':' :: rel) =
        some (FilePath.child (p.publicDirectory id) rel) ∧
      p.getInstanceForDocId (PREFIX ++ id ++ ':' :: rel) = some id := by
  have hfound := getInstance_eq_some.mpr hmem
  unfold getFileForDocId getInstanceForDocId
  rw [parts_docId hid]
  simp only [Option.bind_eq_bind, Option.bind_some, hfound]
  exact ⟨rfl, trivial⟩

/-! ## The round trip -/

/-- **Document ids and files**: in every registry whose ids have no `':'`, the id of a file at
or below an instance's public directory leads back to the file and to the instance, ids of
different files or instances differ, and every id that was made is made again from what it
leads to.

SOURCE: InstanceFilesProvider.kt:101-136 -/
theorem document_ids_roundtrip (p : InstanceFilesProvider) (hids : ∀ id ∈ p.instances, ':' ∉ id) :
    (∀ id ∈ p.instances, ∀ f, AtOrBelow (p.publicDirectory id) f →
      ∃ docId, p.getDocIdForFile id f = .ok docId ∧ p.getFileForDocId docId = some f ∧
        p.getInstanceForDocId docId = some id) ∧
    (∀ id ∈ p.instances, ∀ id' ∈ p.instances, ∀ f f', AtOrBelow (p.publicDirectory id) f →
      AtOrBelow (p.publicDirectory id') f' →
        p.getDocIdForFile id f = p.getDocIdForFile id' f' → id = id' ∧ f = f') ∧
    ∀ docId, (∃ id ∈ p.instances, ∃ f, AtOrBelow (p.publicDirectory id) f ∧
      p.getDocIdForFile id f = .ok docId) →
        ∃ id f, p.getInstanceForDocId docId = some id ∧ p.getFileForDocId docId = some f ∧
          p.getDocIdForFile id f = .ok docId := by
  have hback : ∀ id ∈ p.instances, ∀ f, AtOrBelow (p.publicDirectory id) f →
      ∃ docId, p.getDocIdForFile id f = .ok docId ∧ p.getFileForDocId docId = some f ∧
        p.getInstanceForDocId docId = some id := by
    intro id hmem f hf
    obtain ⟨rel, hdoc, hchild⟩ := getDocIdForFile_eq hf
    obtain ⟨hfile, hinst⟩ := read_docId hmem (hids id hmem) rel
    exact ⟨_, hdoc, by rw [hfile, hchild], hinst⟩
  refine ⟨hback, ?_, ?_⟩
  · intro id hmem id' hmem' f f' hf hf' hsame
    obtain ⟨docId, hdoc, hfile, hinst⟩ := hback id hmem f hf
    obtain ⟨docId', hdoc', hfile', hinst'⟩ := hback id' hmem' f' hf'
    obtain rfl : docId = docId' := Except.ok.inj (hdoc.symm.trans (hsame.trans hdoc'))
    exact ⟨Option.some.inj (hinst.symm.trans hinst'), Option.some.inj (hfile.symm.trans hfile')⟩
  · rintro docId ⟨id, hmem, f, hf, hdoc⟩
    obtain ⟨docId', hdoc', hfile, hinst⟩ := hback id hmem f hf
    obtain rfl : docId = docId' := Except.ok.inj (hdoc.symm.trans hdoc')
    exact ⟨id, f, hinst, hfile, hdoc⟩

/-- Two instances, the id of one beginning the id of the other. -/
def twoPrinters : InstanceFilesProvider where
  filesDir := "/data/files".toList
  instances := ["7c".toList, "7c2".toList]
  getMimeTypeFromExtension _ := none
  parseMode mode :=
    if mode = "r".toList then .ok MODE_READ_ONLY else .error ("Bad mode: ".toList ++ mode)

/-- A file whose name holds the separator and the id of the other instance. -/
theorem document_ids_roundtrip_colon :
    ∃ docId,
      twoPrinters.getDocIdForFile "7c".toList
        (twoPrinters.publicDirectory "7c".toList ++ "/7c2:a b".toList) = .ok docId ∧
      twoPrinters.getFileForDocId docId =
        some (twoPrinters.publicDirectory "7c".toList ++ "/7c2:a b".toList) ∧
      twoPrinters.getInstanceForDocId docId = some "7c".toList :=
  (document_ids_roundtrip twoPrinters (by decide +kernel)).1 _ (by decide +kernel) _
    (.inr ⟨"7c2:a b".toList, by decide +kernel, rfl, by decide +kernel⟩)

end Cream.Model.InstanceFilesProvider
