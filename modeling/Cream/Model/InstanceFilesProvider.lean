import Cream.Library.FileTree

/-!
# The documents provider

`InstanceFilesProvider.kt`: other apps reach the files of an instance by document ids
`instance:<id>:<path>`, where the path is relative to the instance's public directory. Every
call the system makes with an id is a `Request`; what it does is told by its result, the
paths it hands to the system, and the file tree after it. The times of files, the icons, the
columns a caller leaves out and the list of the roots are left out.

SOURCE: InstanceFilesProvider.kt:41-136
-/

set_option autoImplicit false

namespace Cream.Model

open Cream.Library

/-- What the provider works on. -/
structure InstanceFilesProvider where
  /-- `KlipperApp.INSTANCE.filesDir` -/
  filesDir : Text
  /-- the ids of the instances `KlipperInstance.getInstance` finds -/
  instances : List Text
  /-- `MimeTypeMap.getSingleton().getMimeTypeFromExtension` -/
  getMimeTypeFromExtension : Text → Option Text
  /-- `ParcelFileDescriptor.parseMode`, or the message with which it throws; which modes it knows
  is the system's matter -/
  parseMode : Text → Except Text FileTree.AccessMode

namespace InstanceFilesProvider

/-- What a call throws. -/
inductive Exn where
  | fileNotFound (message : Text)
  | illegalArgument (message : Text)
  | nullPointer
  | indexOutOfBounds
  /-- the `FileNotFoundException` of the system when a file cannot be opened -/
  | cannotOpen

/-- A row of a cursor. -/
structure Row where
  documentId : Text
  displayName : Text
  size : Nat
  mimeType : Text
  flags : Nat

/-- What a call does. -/
structure Outcome (α : Type) where
  result : Except Exn α
  /-- the paths of the files it looks at, opens, makes or deletes -/
  touched : List Text
  tree : FileTree

def FLAG_SUPPORTS_THUMBNAIL : Nat := 1
def FLAG_SUPPORTS_WRITE : Nat := 2
def FLAG_SUPPORTS_DELETE : Nat := 4
def FLAG_DIR_SUPPORTS_CREATE : Nat := 8

/-- `DocumentsContract.Document.MIME_TYPE_DIR` -/
def MIME_TYPE_DIR : Text := "vnd.android.document/directory".toList

/-- `"instance:"` -/
def PREFIX : Text := "instance:".toList

variable (p : InstanceFilesProvider)

/-- `KlipperInstance.directory`, of the instance with an id. -/
def directory (id : Text) : Text := FilePath.child p.filesDir ("instance/".toList ++ id)

/-- `KlipperInstance.publicDirectory`. -/
def publicDirectory (id : Text) : Text := FilePath.child (p.directory id) "public".toList

/-- `KlipperInstance.getInstance`: an instance is known by its id. -/
def getInstance (id : Text) : Option Text := p.instances.find? (· = id)

/-- `String.substring`. -/
def substring (s : Text) (start : Nat) : Except Exn Text :=
  if start ≤ s.length then .ok (s.drop start) else .error .indexOutOfBounds

def getDocIdForFile (id path : Text) : Except Exn Text := do
  let rootPath := p.publicDirectory id
  let relative ←
    if rootPath = path then pure []
    else if rootPath.getLast? = some '/' then substring path rootPath.length
    else substring path (rootPath.length + 1)
  return PREFIX ++ id ++ ':' :: relative

/-- The instance id and the path of a document id: what stands before and after the first
`':'`. -/
def parts (docId : Text) : Option (Text × Text) := do
  let str ← docId.dropPrefix? PREFIX
  if ':' ∈ str then some (str.takeWhile (· != ':'), (str.dropWhile (· != ':')).tail) else none

def getInstanceForDocId (docId : Text) : Option Text := do
  let (id, _) ← parts docId
  p.getInstance id

def getFileForDocId (docId : Text) : Option Text := do
  let (id, path) ← parts docId
  let inst ← p.getInstance id
  return FilePath.child (p.publicDirectory inst) path

def getTypeForName (name : Text) : Text :=
  if '.' ∈ name then
    (p.getMimeTypeFromExtension (name.rtakeWhile (· != '.'))).getD "application/octet-stream".toList
  else "application/octet-stream".toList

def getTypeForFile (t : FileTree) (file : Text) : Text :=
  if t.isDirectory file then MIME_TYPE_DIR else p.getTypeForName (FilePath.name file)

/-- The row `includeFile` adds. -/
def rowOf (t : FileTree) (id file : Text) : Row :=
  let access :=
    if t.isDirectory file then if t.canWrite file then FLAG_DIR_SUPPORTS_CREATE else 0
    else if t.canWrite file then FLAG_SUPPORTS_WRITE ||| FLAG_SUPPORTS_DELETE else 0
  let mimeType := p.getTypeForFile t file
  { documentId := id
    displayName := FilePath.name file
    size := t.length file
    mimeType := mimeType
    flags := if "image/".toList <+: mimeType then access ||| FLAG_SUPPORTS_THUMBNAIL else access }

def queryDocument (t : FileTree) (documentId : Text) : Outcome (List Row) :=
  match p.getFileForDocId documentId with
  | none => ⟨.ok [], [], t⟩
  | some file => ⟨.ok [p.rowOf t documentId file], [file], t⟩

def queryChildDocuments (t : FileTree) (parentDocumentId : Text) : Outcome (List Row) :=
  match p.getFileForDocId parentDocumentId with
  | none => ⟨.ok [], [], t⟩
  | some parent =>
    match t.listFiles parent with
    | none => ⟨.ok [], [parent], t⟩
    | some names =>
      let files := names.map (FilePath.resolve parent)
      match p.getInstanceForDocId parentDocumentId with
      | none => ⟨.ok [], [parent], t⟩
      | some inst =>
        ⟨files.mapM fun file => do return p.rowOf t (← p.getDocIdForFile inst file) file,
          parent :: files, t⟩

/-- `openDocument`: the path of the file that was opened. -/
def openDocument (refuses : Text → Bool) (t : FileTree) (documentId mode : Text) : Outcome Text :=
  match p.parseMode mode with
  | .error message => ⟨.error (.illegalArgument message), [], t⟩
  | .ok accessMode =>
    match p.getFileForDocId documentId with
    | none => ⟨.error .nullPointer, [], t⟩
    | some file =>
      match t.openFile refuses file accessMode with
      | some t => ⟨.ok file, [file], t⟩
      | none =>
        if 'w' ∈ mode then
          ⟨.error (.fileNotFound ("Failed to open document with id ".toList ++ documentId ++
            " and mode ".toList ++ mode)), [file], t⟩
        else ⟨.error .cannotOpen, [file], t⟩

/-- `ParcelFileDescriptor.MODE_READ_ONLY` -/
def MODE_READ_ONLY : FileTree.AccessMode := ⟨true, false, false, false⟩

def openDocumentThumbnail (refuses : Text → Bool) (t : FileTree) (documentId : Text) :
    Outcome Text :=
  match p.getFileForDocId documentId with
  | none => ⟨.error .nullPointer, [], t⟩
  | some file =>
    match t.openFile refuses file MODE_READ_ONLY with
    | some t => ⟨.ok file, [file], t⟩
    | none => ⟨.error .cannotOpen, [file], t⟩

def createDocument (refuses : Text → Bool) (t : FileTree) (documentId _mimeType displayName : Text) :
    Outcome Text :=
  match p.getFileForDocId documentId with
  | none => ⟨.error (.fileNotFound ("No parent for ".toList ++ documentId)), [], t⟩
  | some parent =>
    let inst := p.getInstanceForDocId documentId
    let file := FilePath.child parent displayName
    match t.createNewFile refuses file with
    | none =>
      ⟨.error (.fileNotFound ("Failed to create document with name ".toList ++ displayName ++
        " and documentId ".toList ++ documentId)), [file], t⟩
    | some (_, t) =>
      let t := (t.setWritable file).setReadable file
      match inst with
      | none => ⟨.error (.fileNotFound ("No instance for ".toList ++ documentId)), [file], t⟩
      | some inst => ⟨p.getDocIdForFile inst file, [file], t⟩

def deleteDocument (refuses : Text → Bool) (t : FileTree) (documentId : Text) : Outcome Unit :=
  match p.getFileForDocId documentId with
  | none => ⟨.error (.fileNotFound ("No file for ".toList ++ documentId)), [], t⟩
  | some file =>
    match t.delete refuses file with
    | some t => ⟨.ok (), [file], t⟩
    | none => ⟨.error (.fileNotFound ("Failed to delete document with id ".toList ++ documentId)),
        [file], t⟩

end InstanceFilesProvider

end Cream.Model
