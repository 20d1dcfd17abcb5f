import Cream.Library.FileTree
import Cream.Library.Glob
import Mathlib

/-!
# The frames of a timelapse

`expandWildcard` in `WebService.kt`. A result is the list of paths of the files it returns;
`none` is an exception out of `toRegex`. Directories are those of a file tree, and the engine of
`kotlin.text.Regex` is one of `Glob.Engine`.

SOURCE: WebService.kt:202-215
-/

set_option autoImplicit false

namespace Cream.Model

open Library Library.FilePath

namespace WebService

/-- The UTF-16 units of a `String`. -/
def units (s : Text) : List Nat :=
  s.flatMap fun c =>
    if c.toNat < 0x10000 then [c.toNat]
    else [0xD800 + (c.toNat - 0x10000) / 0x400, 0xDC00 + (c.toNat - 0x10000) % 0x400]

/-- The order of `sortedBy { it.name }`. -/
def NameOrder (f g : Text) : Prop := units (name f) ≤ units (name g)

instance : DecidableRel NameOrder := fun f g =>
  inferInstanceAs (Decidable (units (name f) ≤ units (name g)))

/-- `path.contains("*") || path.contains("?")` -/
def hasWildcard (path : Text) : Bool := path.contains '*' || path.contains '?'

/-- The text of `namePattern`. -/
def namePattern (name : Text) : Text :=
  ((name.replace ['.'] ['\\', '.']).replace ['*'] ['.', '*']).replace ['?'] ['.']

/-- `File(path).parentFile ?: File("/")` -/
def parentFile (path : Text) : Text := (parent (normalize path)).getD ['/']

def expandWildcard (engine : Glob.Engine) (t : FileTree) (path : Text) : Option (List Text) :=
  if hasWildcard path then
    (engine.compile (namePattern (name (normalize path)))).map fun namePattern =>
      let files := ((t.listFiles (parentFile path)).getD []).map (resolve (parentFile path))
      (files.filter fun it => namePattern (name it) && t.isFile it).insertionSort NameOrder
  else
    let f := normalize path
    some (if t.fileExists f then [f] else [])

end WebService

end Cream.Model
