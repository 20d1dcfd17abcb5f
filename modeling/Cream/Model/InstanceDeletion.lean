import Cream.Model.InstanceStore

/-!
# Deleting an instance

`MainViewModel.delete` with `BeamDB.delete`: the stop on the UI thread, the deletion of the
row with the reload that follows, and the recursive deletion of the instance directory,
among whatever else the registry, the other writes to the database and the bound services
do. The instance directory is all that is kept of the file system: `start` makes it, and
the services of a binding write below the directory of the id they were bound with, which
is the id of the object that bound them.

SOURCE: MainViewModel.kt:69-74, BeamDB.kt:101-106, KlipperInstance.kt:135-194
-/

set_option autoImplicit false

namespace Cream.Model

open Cream.Library.SqlTable (Table)

structure InstanceDeletion where
  registry : Registry
  table : Table
  /-- the ids whose `DATABASE.delete` has been launched on an IO thread -/
  launched : List String
  /-- the ids whose row is deleted and whose directory is about to be -/
  removing : List String
  /-- the ids whose row has been deleted, and not inserted again -/
  deleted : List String
  /-- the instance directory of an id exists -/
  directory : String → Bool

namespace InstanceDeletion

/-- A process on a new database. -/
def init : InstanceDeletion := ⟨Registry.empty, BeamDB.newTable, [], [], [], fun _ => false⟩

/-- What can happen. -/
inductive Action where
  /-- `start`, `stop`, a posted block or a callback -/
  | registry (a : Registry.Action)
  /-- the load when the process starts -/
  | load (hash : Oid → Nat) (dirs : String → Dirs)
  | insert (inst : Instance) (hash : Oid → Nat) (dirs : String → Dirs)
  | update (inst : Instance) (hash : Oid → Nat) (dirs : String → Dirs)
  /-- `MainViewModel.delete` -/
  | delete (o : Oid)
  /-- `BeamDB.delete` up to the reload -/
  | databaseDelete (id : String) (hash : Oid → Nat) (dirs : String → Dirs)
  /-- `inst.directory.deleteRecursively()` -/
  | deleteRecursively (id : String)
  /-- a bound service makes directories or writes files -/
  | serviceFiles (c : Conn)

/-- The directories `start` makes. -/
def madeBy (s : InstanceDeletion) : Registry.Action → String → Bool
  | .start o dirs =>
    if s.registry.stateOf o = .idle ∧ dirs.directory then
      Function.update s.directory (s.registry.idOf o) true
    else s.directory
  | _ => s.directory

/-- The directories the autostarts of a reload make: those of the rows whose object is or
was idle. -/
def madeByReload (s : InstanceDeletion) (rows : List Row) (dirs : String → Dirs) : String → Bool :=
  fun id => s.directory id || rows.any fun row =>
    row.id = id && row.autostart && (dirs id).directory &&
      decide (∀ w ∈ (s.registry.instanceMapGet id).2, s.registry.stateOf w = .idle)

/-- `onInstancesLoadedFromDB(getInstances())` once the table has changed. -/
def reload (s : InstanceDeletion) (table : Table) (hash : Oid → Nat) (dirs : String → Dirs) :
    Option InstanceDeletion :=
  let rows := BeamDB.getInstances table
  (s.registry.step (.onInstancesLoadedFromDB rows (some rows) hash dirs)).map fun r =>
    { s with registry := r, table, directory := s.madeByReload rows dirs }

/-- How that reload ends. -/
def reloadOutcome (s : InstanceDeletion) (table : Table) (hash : Oid → Nat) (dirs : String → Dirs) :
    Outcome :=
  let rows := BeamDB.getInstances table
  let (r, loaded) := s.registry.loadRows rows
  (r.onInstancesLoadedFromDB loaded (some rows) hash dirs).2

/-- One step. An exception of the reload in `BeamDB.delete` skips the directory. -/
def step (s : InstanceDeletion) : Action → Option InstanceDeletion
  | .registry a =>
    if Store.NoReload a then
      (s.registry.step a).map fun r => { s with registry := r, directory := s.madeBy a }
    else none
  | .load hash dirs => s.reload s.table hash dirs
  | .insert inst hash dirs =>
    (s.reload (BeamDB.insert s.table inst) hash dirs).map fun t =>
      { t with deleted := t.deleted.filter fun id => id ≠ inst.id }
  | .update inst hash dirs => s.reload (BeamDB.update s.table inst) hash dirs
  | .delete o =>
    (s.registry.step (.stop o)).map fun r =>
      { s with registry := r, launched := s.registry.idOf o :: s.launched }
  | .databaseDelete id hash dirs =>
    if id ∈ s.launched then
      (s.reload (BeamDB.delete s.table id) hash dirs).map fun t =>
        { t with
          launched := s.launched.erase id
          deleted := id :: s.deleted
          removing := match s.reloadOutcome (BeamDB.delete s.table id) hash dirs with
            | .returned => id :: s.removing
            | .threw => s.removing }
    else none
  | .deleteRecursively id =>
    if id ∈ s.removing then
      some { s with
        removing := s.removing.erase id
        directory := Function.update s.directory id false }
    else none
  | .serviceFiles c =>
    (s.registry.bindingOf c).map fun b =>
      { s with directory := Function.update s.directory (s.registry.idOf b.owner) true }

end InstanceDeletion

end Cream.Model
