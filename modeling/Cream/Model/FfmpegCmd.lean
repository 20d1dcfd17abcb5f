import Cream.Library.Quoting
import Cream.Library.TextEditing

/-!
# The ffmpeg commands of the timelapse component

`Timelapse.render` in `timelapse.py` builds two command lines, and `parseFfmpegCmd` in
`WebService.kt` reads them with four regular expressions. `CharClasses` is what `\s` and `\d`
stand for, which differs between the engines; `Radians` is Python's text of an angle.

SOURCE: timelapse.py:606-672, 728-742, WebService.kt:166-200
-/

set_option autoImplicit false

namespace Cream.Model

open Cream.Library Cream.Library.Text

/-- The classes `\s` and `\d` of a regular expression engine. -/
structure CharClasses where
  digits : Digits
  isSpace : Char → Bool
  space : isSpace ' ' = true
  printable : ∀ c : Char, 32 < c.toNat → c.toNat < 127 → isSpace c = false

/-- `str(rotation * (pi / 180))`. -/
structure Radians where
  str : Int → Text
  plain : ∀ r, ∀ c ∈ str r, c.isDigit ∨ c ∈ ['.', 'e', '+', '-', 'i', 'n', 'f']

/-- `str` of an `int`. -/
def str (n : Int) : Text :=
  if n < 0 then '-' :: Nat.toDigits 10 n.natAbs else Nat.toDigits 10 n.natAbs

/-- The entries of `self.config` the commands are built with. -/
structure RenderConfig where
  constantRateFactor : Int
  pixelformat : Text
  extraoutputparams : Text
  rotation : Int
  flipX : Bool
  flipY : Bool

namespace RenderConfig

/-- The filter, if any. -/
def filter (rd : Radians) (config : RenderConfig) : Option Text :=
  if config.rotation = 90 ∧ config.flipY then some "transpose=3".toList
  else if config.rotation = 90 then some "transpose=1".toList
  else if config.rotation = 180 then some "hflip,vflip".toList
  else if config.rotation = 270 then some "transpose=2".toList
  else if config.rotation = 270 ∧ config.flipY then some "transpose=0".toList
  else if config.rotation > 0 then some ("rotate=".toList ++ rd.str config.rotation)
  else if config.flipX ∧ config.flipY then some "hflip,vflip".toList
  else if config.flipX then some "hflip".toList
  else if config.flipY then some "vflip".toList
  else none

/-- The options of the main command between the filter and the output. -/
def options (config : RenderConfig) : Text :=
  " -threads 2 -g 5".toList ++ " -crf ".toList ++ str config.constantRateFactor ++
    " -vcodec h264_mediacodec".toList ++ " -pix_fmt ".toList ++ config.pixelformat ++
    " -an".toList ++ " ".toList ++ config.extraoutputparams

/-- The options of the preview command between the filter and the output. -/
def previewOptions (config : RenderConfig) : Text :=
  " -an".toList ++ " ".toList ++ config.extraoutputparams

end RenderConfig

/-- `filterParam`. -/
def filterParam : Option Text → Text
  | none => []
  | some filter => " -vf '".toList ++ filter ++ "'".toList

/-- The directories, and the parts of the name of the output. -/
structure RenderNames where
  tempDir : Text
  outDir : Text
  gcodefilename : Text
  dateTime : Text

namespace RenderNames

def outfile (names : RenderNames) : Text :=
  "timelapse_".toList ++ names.gcodefilename ++ "_".toList ++ names.dateTime

def inputfiles (names : RenderNames) : Text := names.tempDir ++ "frame%6d.jpg".toList

/-- Where the main command writes. -/
def output (names : RenderNames) : Text := names.tempDir ++ names.outfile ++ ".mp4".toList

def previewFilePath (names : RenderNames) : Text :=
  names.outDir ++ (names.outfile ++ ".jpg".toList)

end RenderNames

/-- The main command. -/
def renderCmd (rd : Radians) (config : RenderConfig) (names : RenderNames) (fps : Int) : Text :=
  " -r ".toList ++ str fps ++ " -i '".toList ++ names.inputfiles ++ "'".toList ++
    filterParam (config.filter rd) ++ config.options ++ " '".toList ++ names.output ++
    "' -y".toList

/-- The preview command. -/
def previewCmd (rd : Radians) (config : RenderConfig) (names : RenderNames) : Text :=
  " -i '".toList ++ names.previewFilePath ++ "'".toList ++ filterParam (config.filter rd) ++
    config.previewOptions ++ " '".toList ++ names.previewFilePath ++ "' -y".toList

/-! ## `parseFfmpegCmd` -/

structure ParsedCmd where
  fps : Option Int
  inputPath : Text
  outputPath : Text
  filter : Option Text

/-- Kotlin's `Int.MAX_VALUE`. -/
def INT_MAX_VALUE : Nat := 2147483647

/-- `toInt` of a row of digits; `none` is a `NumberFormatException`. -/
def toInt (dg : Digits) (s : Text) : Option Int :=
  (dg.decimal s).bind fun n => if n ≤ INT_MAX_VALUE then some (n : Int) else none

namespace CharClasses

variable (cc : CharClasses)

def isDigit (c : Char) : Bool := (cc.digits.value c).isSome

/-- `-r\s+(\d+)` -/
def fpsPattern : Pattern := [.text ['-', 'r'], .run cc.isSpace, .group cc.isDigit]

/-- The pattern `name\s+'([^']+)'`. -/
def optionPattern (name : Text) : Pattern := .text name :: .run cc.isSpace :: Quoting.quotedPattern

end CharClasses

/-- `find(cmd)?.groupValues[1]`. -/
def firstGroup (ps : Pattern) (cmd : Text) : Option Text :=
  (ps.find cmd).bind fun (_, groups, _) => groups.head?

/-- The last of `'([^']+)'`. -/
def lastQuoted (cmd : Text) : Option Text :=
  (Quoting.quotedPattern.findAll cmd).getLast?.bind List.head?

/-- The frame rate. -/
def parseFps (cc : CharClasses) (cmd : Text) : Option (Option Int) :=
  match firstGroup cc.fpsPattern cmd with
  | none => some none
  | some digits => (toInt cc.digits digits).map some

/-- `parseFfmpegCmd`; `none` is an exception. -/
def parseFfmpegCmd (cc : CharClasses) (cmd : Text) : Option ParsedCmd :=
  (parseFps cc cmd).map fun fps =>
    { fps := fps
      inputPath := (firstGroup (cc.optionPattern ['-', 'i']) cmd).getD []
      outputPath := (lastQuoted cmd).getD []
      filter := firstGroup (cc.optionPattern ['-', 'v', 'f']) cmd }

end Cream.Model
