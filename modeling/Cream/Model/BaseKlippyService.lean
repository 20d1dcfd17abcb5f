import Cream.Library.FilePath
import Cream.Library.Pattern

/-!
# The edit of printer.cfg

`BaseKlippyService.kt`: before Klipper starts, `onStartPython` sees to it that `printer.cfg`
has a `[virtual_sdcard]` section in the instance's public directory.

SOURCE: BaseKlippyService.kt:82-101
-/

set_option autoImplicit false

namespace Cream.Model

open Cream.Library

namespace BaseKlippyService

/-- `\[virtual_sdcard][\r\n ]+path: ([^\r\n]+)` -/
def pattern : Pattern :=
  [.text "[virtual_sdcard]".toList, .run (· ∈ ['\r', '\n', ' ']), .text "path: ".toList,
    .group (· ∉ ['\r', '\n'])]

def VIRTUAL_SDCARD : Text := "[virtual_sdcard]".toList

/-- The first `if`: a section with a path elsewhere is cut, with the character after it;
`none` when there is no such character and `substring` throws. -/
def cutStale (str publicDirectory : Text) : Option Text :=
  match pattern.find str with
  | some (before, path :: _, after) =>
    if publicDirectory <+: path then some str
    else
      match after with
      | [] => none
      | _ :: after => some (before ++ after)
  | _ => some str

/-- The section that is appended. -/
def newSection (publicDirectory : Text) : Text :=
  "\n[virtual_sdcard]\npath: ".toList ++
    (FilePath.child publicDirectory "gcodes".toList ++ ['\n'])

/-- What is written back, if anything is. -/
def written (str publicDirectory : Text) : Option Text := do
  let str ← cutStale str publicDirectory
  if VIRTUAL_SDCARD <:+: str then none else some (str ++ newSection publicDirectory)

/-- `onStartPython`: the content of printer.cfg after it. -/
def edit (str publicDirectory : Text) : Text := (written str publicDirectory).getD str

end BaseKlippyService

end Cream.Model
