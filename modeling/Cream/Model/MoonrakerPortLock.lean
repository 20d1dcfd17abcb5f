import Mathlib.Logic.Function.Basic
import Mathlib.Tactic.Simps.Basic

/-!
# The Moonraker port lock

`KlipperApp.withMoonrakerPortLock`: any number of calls, each in a process of its own, on
one lock file. A step of a call is one operation on the file or one reading of the clock;
between two steps of a call the others may take any number of theirs. Times are in
milliseconds, and a missing file was last modified at `0`, as `File.lastModified` has it.

SOURCE: KlipperApp.kt:110-139
-/

set_option autoImplicit false

namespace Cream.Model

/-- The lock file. A file that was there before the first call has no creator. -/
structure LockFile where
  creator : Option Nat
  modified : Int
deriving DecidableEq, Repr

/-- The next operation of a call. -/
inductive LockPc where
  | outside
  /-- `while (System.currentTimeMillis() < deadline)` -/
  | test
  /-- `createNewFile()` in the loop -/
  | create
  /-- `System.currentTimeMillis()` in the stale check -/
  | now
  /-- `lastModified()`, with the time read before it -/
  | modified (now : Int)
  /-- `delete()` in the loop, with what `lastModified()` answered -/
  | staleDelete (modified : Int)
  | sleep
  /-- `delete()` after the deadline -/
  | forcedDelete
  /-- `createNewFile()` after the deadline -/
  | forcedCreate
  /-- just before `action()` -/
  | enter
  | action
  /-- the `finally` block -/
  | release
  | done
deriving DecidableEq, Repr

/-- The variables of a call; `runs` counts how often its action has been started. -/
structure LockCall where
  pc : LockPc := .outside
  deadline : Int := 0
  acquired : Bool := false
  runs : Nat := 0
deriving DecidableEq, Repr

/-- A `delete()` that removed a file. -/
structure Deletion where
  call : Nat
  file : LockFile
  time : Int
deriving DecidableEq, Repr

structure PortLock where
  clock : Int
  lock : Option LockFile
  calls : Nat → LockCall
  deletions : List Deletion

namespace PortLock

/-- How long a call tries. -/
def PATIENCE : Int := 15000

/-- The age from which a lock file counts as left behind. -/
def THRESHOLD : Int := 10000

/-- Assign the variables of a call. -/
@[simps] def modify (s : PortLock) (p : Nat) (f : LockCall → LockCall) : PortLock :=
  { s with calls := Function.update s.calls p (f (s.calls p)) }

/-- Go on with another operation. -/
@[simps!] def goto (s : PortLock) (p : Nat) (pc : LockPc) : PortLock :=
  s.modify p fun c => { c with pc := pc }

/-- `File.createNewFile`, and whether it made the file. -/
def createNewFile (s : PortLock) (p : Nat) : PortLock × Bool :=
  match s.lock with
  | none => ({ s with lock := some { creator := some p, modified := s.clock } }, true)
  | some _ => (s, false)

/-- `File.lastModified`. -/
def lastModified (s : PortLock) : Int :=
  match s.lock with
  | none => 0
  | some file => file.modified

/-- `File.delete`. -/
def delete (s : PortLock) (p : Nat) : PortLock :=
  match s.lock with
  | none => s
  | some file =>
    { s with
      lock := none
      deletions := s.deletions ++ [{ call := p, file := file, time := s.clock }] }

/-- One operation of a call. `fails` says that a `createNewFile()` throws, a `delete()`
does not remove the file, or a `sleep` is interrupted. -/
def advance (s : PortLock) (p : Nat) (fails : Bool) : Option PortLock :=
  match (s.calls p).pc with
  | .outside => none
  | .test => some (s.goto p (if s.clock < (s.calls p).deadline then .create else .forcedDelete))
  | .create =>
    if fails then some (s.goto p .now)
    else
      match s.createNewFile p with
      | (s, true) => some (s.modify p fun c => { c with pc := .enter, acquired := true })
      | (s, false) => some (s.goto p .now)
  | .now => some (s.goto p (.modified s.clock))
  | .modified now =>
    if now - s.lastModified > THRESHOLD then some (s.goto p (.staleDelete s.lastModified))
    else some (s.goto p .sleep)
  | .staleDelete _ => some ((if fails then s else s.delete p).goto p .sleep)
  | .sleep => some (s.goto p (if fails then .forcedDelete else .test))
  | .forcedDelete => some ((if fails then s else s.delete p).goto p .forcedCreate)
  | .forcedCreate =>
    if fails then some (s.goto p .enter)
    else
      match s.createNewFile p with
      | (s, acquired) => some (s.modify p fun c => { c with pc := .enter, acquired := acquired })
  | .enter => some (s.modify p fun c => { c with pc := .action, runs := c.runs + 1 })
  | .action => some (s.goto p (if (s.calls p).acquired then .release else .done))
  | .release => some ((if fails then s else s.delete p).goto p .done)
  | .done => none

/-- What can happen. -/
inductive Event where
  /-- time passes -/
  | tick (d : Nat)
  /-- `withMoonrakerPortLock` is called -/
  | call (p : Nat)
  | op (p : Nat) (fails : Bool)
deriving DecidableEq, Repr

/-- One step. Every call has a number of its own. -/
def step (s : PortLock) : Event → Option PortLock
  | .tick d => some { s with clock := s.clock + d }
  | .call p =>
    if (s.calls p).pc = .outside then
      some (s.modify p fun c => { c with pc := .test, deadline := s.clock + PATIENCE })
    else none
  | .op p fails => s.advance p fails

/-- Before the first call: a lock file may have been left behind. -/
def initial (clock : Int) (left : Option Int) : PortLock where
  clock := clock
  lock := left.map fun modified => { creator := none, modified := modified }
  calls := fun _ => {}
  deletions := []

end PortLock

end Cream.Model
