import Cream.Library.ConfigParser
import Cream.Model.ConfigFile

/-!
# Reading moonraker.conf

`moonraker/confighelper.py`: `FileSourceWrapper._parse_file` goes through a file line by line,
drops comments, reads the files an include directive names, refuses what comes twice in one
file, and hands the lines to Python's `ConfigParser`. `Server.__init__` takes the port from
`[server]`. Every error of the reader is one: the configuration is not accepted, and `main`
builds the server once more from the backup that an earlier Moonraker left beside the file.

SOURCE: confighelper.py:125-176, 217-229, 581, 963-1098, server.py:86-88, 254-308, 655-684
-/

set_option autoImplicit false

namespace Cream.Model

open Cream.Library Text Ini

/-- A file a configuration is read from, by its inode. -/
inductive SourceFile where
  /-- moonraker.conf -/
  | main
  /-- .moonraker.conf.bkp -/
  | backup
  | included (n : Nat)
deriving DecidableEq

/-- The files beside moonraker.conf. A service writes none of them, and a Moonraker writes the
backup only when it runs from moonraker.conf, where it is not asked for. -/
structure Disk where
  /-- the text of the backup, if there is one that can be read -/
  backup : Option Text
  /-- the texts of what else can be included, where they can be read -/
  files : List (Option Text)
  /-- what an include directive of a file names, sorted by path -/
  glob : SourceFile → Text → List SourceFile

def Disk.text (disk : Disk) (main : Text) : SourceFile → Option Text
  | .main => some main
  | .backup => disk.backup
  | .included n => (disk.files[n]?).join

namespace FileSourceWrapper

/-- `re.search(r" +[#;]", line)`: the line before an inline comment. -/
def cutComment : Text → Text
  | [] => []
  | c :: s =>
    if c = ' ' ∧ ((s.dropWhile (· = ' ')).head?.any fun c => c == '#' || c == ';') then []
    else c :: cutComment s

/-- `re.sub(r" \\(#|;)", r" \1", line)`: the escaped characters. -/
def unescape : Text → Text
  | ' ' :: '\\' :: '#' :: s => ' ' :: '#' :: unescape s
  | ' ' :: '\\' :: ';' :: s => ' ' :: ';' :: unescape s
  | c :: s => c :: unescape s
  | [] => []

/-- `section_r.match`. -/
def sectionName (line : Text) : Option Text :=
  match lstrip line with
  | '[' :: s =>
    let name := s.takeWhile (· ≠ ']')
    if ']' ∈ s ∧ name ≠ [] then some name else none
  | _ => none

/-- What is kept between files. -/
structure Source where
  config : Config
  visited : List SourceFile

/-- What is kept between the lines of a file; the sections and options are the file's own
entries in `file_section_map` and `file_option_map`. -/
structure Parsing where
  source : Source
  buffer : List Text
  lastSection : Text
  /-- `none` is `-1` -/
  optIndent : Option Nat
  sections : List Text
  options : List (Text × Text)

/-- `_write_buffer`. -/
def writeBuffer (d : Dialect) (config : Config) (buffer : List Text) : Option Config :=
  if buffer = [] then some config else ConfigParser.read d config buffer

/-- A round of the loop in `_parse_file`. -/
def parseLine (d : Dialect) (parseIncluded : Source → Text → Option Source) (p : Parsing)
    (line : Text) : Option Parsing :=
  if strip line = [] ∨ ConfigParser.isComment line then some p
  else
    let line := unescape (cutComment (expandtabs 4 0 line))
    if ∃ indent ∈ p.optIndent, indent < indentOf line then
      some { p with buffer := p.buffer ++ [line] }
    else
      match sectionName line with
      | some sect =>
        if "include ".toList <+: sect then
          let path := strip (sect.drop 8)
          if path = [] then none
          else do
            let config ← writeBuffer d p.source.config p.buffer
            let source ← parseIncluded { p.source with config } path
            some { p with source, buffer := [], optIndent := none }
        else if sect ∈ p.sections then none
        else some
          { p with
            buffer := p.buffer ++ [line]
            lastSection := sect
            optIndent := none
            sections := sect :: p.sections }
      | none =>
        let option := strip (line.takeWhile fun c => !isDelimiter c)
        if (p.lastSection, option) ∈ p.options then none
        else some
          { p with
            buffer := p.buffer ++ [line]
            optIndent := some (indentOf line)
            options := (p.lastSection, option) :: p.options }

/-- `_parse_file`. No file is read twice, so there are no more files within each other than
the disk has. -/
def parseFile (d : Dialect) (disk : Disk) (main : Text) :
    Nat → Source → SourceFile → Option Source
  | 0, _, _ => none
  | depth + 1, source, file =>
    if file ∈ source.visited then none
    else do
      let data ← disk.text main file
      let start : Parsing :=
        { source := { source with visited := source.visited ++ [file] }
          buffer := [], lastSection := [], optIndent := none, sections := [], options := [] }
      let p ← (splitlines (universalNewlines data)).foldlM
        (parseLine d fun source path =>
          if disk.glob file path = [] then none
          else (disk.glob file path).foldlM (parseFile d disk main depth) source) start
      let config ← writeBuffer d p.source.config p.buffer
      some { p.source with config }

/-- `read_file` from the `config_file` of the arguments, with the check of
`get_configuration`. -/
def getConfiguration (d : Dialect) (disk : Disk) (main : Text) (configFile : SourceFile) :
    Option Config := do
  let source ← parseFile d disk main (disk.files.length + 2) ⟨.empty, []⟩ configFile
  if (source.config "server".toList).isSome then some source.config else none

end FileSourceWrapper

/-- `find_config_backup` -/
def findConfigBackup (disk : Disk) : Option SourceFile :=
  if disk.backup.isSome then some .backup else none

/-- How the components of a server take its configuration. -/
inductive Loading where
  | loaded
  /-- one of them raises a `ConfigError` -/
  | configError
  /-- one of them raises anything else -/
  | failed
deriving DecidableEq

namespace Server

/-- How building a server ends. -/
inductive Outcome where
  /-- it is to listen on its port -/
  | built (port : Int)
  | configError
  | failed
deriving DecidableEq

/-- `config.getint('port', 7125)` -/
def port (dg : Digits) (config : Config) : Option Int :=
  match ConfigFile.get config "server".toList "port".toList with
  | some value => dg.int value
  | none => some 7125

/-- `Server(app_args, ..)` and `load_components`; what follows the port is in `loads`. -/
def build (d : Dialect) (dg : Digits) (loads : Config → Loading) (disk : Disk) (main : Text)
    (configFile : SourceFile) : Outcome :=
  match FileSourceWrapper.getConfiguration d disk main configFile with
  | none => .configError
  | some config =>
    match port dg config with
    | none => .configError
    | some port =>
      match loads config with
      | .loaded => .built port
      | .configError => .configError
      | .failed => .failed

/-- The loop of `main`: the port Moonraker comes to listen on. The backup is tried once. -/
def main (d : Dialect) (dg : Digits) (loads : Config → Loading) (disk : Disk) (main : Text) :
    Option Int :=
  match build d dg loads disk main .main with
  | .built port => some port
  | .failed => none
  | .configError => do
    match build d dg loads disk main (← findConfigBackup disk) with
    | .built port => some port
    | .failed | .configError => none

end Server

end Cream.Model
