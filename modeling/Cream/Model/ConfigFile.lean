import Cream.Library.Ini

/-!
# Reading a printer configuration

`klippy/configfile.py`: how Klipper reads a file, divides it into the regular data and the
values `SAVE_CONFIG` stored at its end, and which sections it finds there.

SOURCE: configfile.py:145-290
-/

set_option autoImplicit false

namespace Cream.Model

open Cream.Library Text Ini

namespace ConfigFile

def AUTOSAVE_HEADER : Text :=
  ("\n#*# <---------------------- SAVE_CONFIG ---------------------->\n" ++
    "#*# DO NOT EDIT THIS BLOCK OR BELOW. The contents are auto-generated.\n" ++
    "#*#\n").toList

/-- `_read_config_file`: the file is opened in text mode, so there is no carriage return left
to replace. -/
def readConfigFile (content : Text) : Text := universalNewlines content

/-- The start of a line of stored values. -/
def AUTOSAVE_PREFIX : Text := "\n#*# ".toList

/-- The test on a line of the stored values. -/
def Modified (line : Text) : Prop :=
  ¬"#*#".toList <+: line ∨ (4 ≤ line.length ∧ ¬"#*# ".toList <+: line)

instance (line : Text) : Decidable (Modified line) := inferInstanceAs (Decidable (_ ∨ _))

/-- `_find_autosave_data`: the regular data and the stored values. -/
def findAutosaveData (data : Text) : Text × Text :=
  let (regularData, autosaveData) := match data.dropInfix? AUTOSAVE_HEADER with
    | some (before, after) => (before, strip after)
    | none => (data, [])
  -- autosave state corrupted
  if AUTOSAVE_PREFIX <:+: regularData then (data, [])
  -- modifications after header
  else if autosaveData ≠ [] ∧ ∃ line ∈ lines autosaveData, Modified line then (data, [])
  else (regularData, unlines ([] :: (lines autosaveData).map (·.drop 4) ++ [[]]))

/-- A line without its comment. -/
def uncommented (line : Text) : Text := line.takeWhile (· ≠ '#')

/-- The file an include line names. -/
def includeSpec (d : Dialect) (line : Text) : Option Text :=
  match d.sectionHeader line with
  | some header => if "include ".toList <+: header then some (strip (header.drop 8)) else none
  | none => none

/-- The sections whose headers the reader meets in these lines; reading goes on after an
error. -/
def headersFrom (d : Dialect) : Cursor → List Text → List Text
  | _, [] => []
  | cursor, line :: rest =>
    match includeSpec d (uncommented line) with
    | some _ => headersFrom d .start rest
    | none =>
      let kind := cursor.classify d (uncommented line)
      let headers := headersFrom d (cursor.next (uncommented line) kind) rest
      match kind with
      | .header name => name :: headers
      | _ => headers

/-- A file has a section of this name. -/
def HasSection (d : Dialect) (data name : Text) : Prop := name ∈ headersFrom d .start (lines data)

instance (d : Dialect) (data name : Text) : Decidable (HasSection d data name) :=
  inferInstanceAs (Decidable (_ ∈ _))

/-- `fileconfig.get`: the section's own value, else the default. -/
def get (config : Config) (sect opt : Text) : Option Text :=
  (config sect).bind fun _ => (config.value sect opt).or (config.value "DEFAULT".toList opt)

end ConfigFile

end Cream.Model
