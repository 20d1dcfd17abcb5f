/-!
# Starting Python

The block `BasePythonService.onCreate` posts, and `KlipperApp.seedChaquopyDirLocked`, which it
calls first. Python can be started once in a process: `Python.start` throws
`IllegalStateException` when it runs. What the other calls of `Python.start` do is the
environment: a list of outcomes as long as one likes, one for each call made while Python does
not run.

SOURCE: BasePythonService.kt:47-96, KlipperApp.kt:96-108, 141-167
-/

set_option autoImplicit false

namespace Cream.Model

/-- What `Python.start` throws, as the code tells exceptions apart. -/
inductive StartException where
  | illegalState
  /-- a file could not be found, read or made -/
  | fileError
  | other
deriving DecidableEq, Repr

/-- What the call of `Python.start` with a number does if Python does not run. -/
abbrev StartOutcomes := Nat → Option StartException

/-- A process, and the service in it. -/
structure PythonProcess where
  /-- `Python.isStarted()` -/
  started : Bool
  /-- the file `.chaquopy_seed_v1` -/
  marker : Bool
  /-- the directory `chaquopy` -/
  chaquopyDir : Bool
  /-- the field `py` is not null -/
  py : Bool
  /-- the calls of `Python.start` made while Python did not run -/
  calls : Nat
  /-- the rounds of the loop -/
  attempts : Nat
  killed : Bool
deriving DecidableEq, Repr

namespace PythonProcess

/-- `Python.start`, and what it throws. -/
def start (env : StartOutcomes) (s : PythonProcess) : PythonProcess × Option StartException :=
  if s.started then (s, some .illegalState)
  else
    match env s.calls with
    | none => ({ s with started := true, calls := s.calls + 1 }, none)
    | some e => ({ s with calls := s.calls + 1 }, some e)

/-- `if (!Python.isStarted()) Python.start(platform)`. -/
def startUnlessStarted (env : StartOutcomes) (s : PythonProcess) :
    PythonProcess × Option StartException :=
  if s.started then (s, none) else s.start env

/-- `seedChaquopyDirLocked`. -/
def seedChaquopyDirLocked (env : StartOutcomes) (s : PythonProcess) : PythonProcess :=
  if s.marker then s
  else
    let s := match s.startUnlessStarted env with
      | (s, none) | (s, some .illegalState) => s
      | (s, some _) => ({ s with chaquopyDir := false }.startUnlessStarted env).1
    { s with chaquopyDir := true, marker := true }

/-- The loop of the start-up block, with the retries that are left. -/
def retry (env : StartOutcomes) : Nat → PythonProcess → PythonProcess
  | 0, s => s
  | left + 1, s =>
    match { s with attempts := s.attempts + 1 }.start env with
    | (s, none) => { s with py := true }
    -- `if (e is IllegalStateException) break`
    | (s, some .illegalState) => s
    | (s, some .fileError) => retry env left { s with chaquopyDir := false }
    | (s, some .other) => retry env left s

/-- The start-up block. -/
def onCreate (env : StartOutcomes) (s : PythonProcess) : PythonProcess :=
  let s := (s.seedChaquopyDirLocked env).retry env 4
  if s.py then s else { s with killed := true }

end PythonProcess

end Cream.Model
