import Cream.Library.Raster
import Cream.Library.Text

/-!
# The filters of an ffmpeg command

`WebService.kt`: the app draws what ffmpeg would have filtered. `buildTransformMatrix` makes one
matrix of a chain of filters, `applyMatrixToBitmap` draws a bitmap through it. Numbers are
integers, as they are for quarter turns; the rotation by any other angle is a parameter.

SOURCE: WebService.kt:217-268
-/

set_option autoImplicit false

namespace Cream.Model.FfmpegFilter

open Cream.Library

/-- `Char.isWhitespace`. -/
def isWhitespace (c : Char) : Bool := Text.isspace c && c != Char.ofNat 0x85

/-- `String.trim`. -/
def trim (s : Text) : Text := (s.dropWhile isWhitespace).rdropWhile isWhitespace

/-- What a filter does to the matrix; `rotate` is `postRotate` by the angle of a text. -/
def postFilter (rotate : Text → AffineMatrix → AffineMatrix) (matrix : AffineMatrix) (f : Text) :
    AffineMatrix :=
  let trimmed := trim f
  if trimmed = "transpose=0".toList then matrix.postRotateMinus90.postScale 1 (-1)
  else if trimmed = "transpose=1".toList then matrix.postRotate90
  else if trimmed = "transpose=2".toList then matrix.postRotateMinus90
  else if trimmed = "transpose=3".toList then matrix.postRotate90.postScale 1 (-1)
  else if trimmed = "hflip".toList then matrix.postScale (-1) 1
  else if trimmed = "vflip".toList then matrix.postScale 1 (-1)
  else if "rotate=".toList <+: trimmed then
    rotate (trimmed.dropWhile (· != '=')).tail matrix
  else matrix

def buildTransformMatrix (rotate : Text → AffineMatrix → AffineMatrix) (filter : Option Text) :
    AffineMatrix :=
  match filter with
  | none => .identity
  | some filter => (filter.splitOn ',').foldl (postFilter rotate) .identity

/-- `applyMatrixToBitmap`; `none` where a bitmap of no size is asked for. -/
def applyMatrixToBitmap {α : Type} (blank : α) (src : Bitmap α) (matrix : AffineMatrix) :
    Option (Bitmap α) :=
  let mappedRect := matrix.mapRect src.width src.height
  let outW := mappedRect.right - mappedRect.left
  let outH := mappedRect.bottom - mappedRect.top
  let adjusted := matrix.postTranslate (-mappedRect.left) (-mappedRect.top)
  if 0 < outW ∧ 0 < outH then some (src.draw blank adjusted outW.toNat outH.toNat) else none

end Cream.Model.FfmpegFilter
