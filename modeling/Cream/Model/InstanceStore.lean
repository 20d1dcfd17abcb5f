import Mathlib.Data.Finmap
import Cream.Model.BeamDB
import Cream.Model.KlipperInstance

/-!
# The store of instances

`BeamDB.kt`: `getInstances`, `insert`, `update` and `delete` on the table of instances, and
the reload of the registry that follows each write. A store is the table and the registry
whose caches stand before it. The directory that `delete` removes is not part of it.

SOURCE: BeamDB.kt:50-106, KlipperInstance.kt:232-332
-/

set_option autoImplicit false

namespace Cream.Model

open Cream.Library
open Cream.Library.SqlTable (Table Value getAsString)

/-- `InstanceIcon`. -/
inductive InstanceIcon where
  | printer | grid | box | home | game | magicHat | moon | inbox | location | robot
  | services | shoppingCart
deriving DecidableEq, Repr

namespace InstanceIcon

/-- `values()`. -/
def values : List InstanceIcon :=
  [printer, grid, box, home, game, magicHat, moon, inbox, location, robot, services,
    shoppingCart]

def name : InstanceIcon → String
  | printer => "PRINTER"
  | grid => "GRID"
  | box => "BOX"
  | home => "HOME"
  | game => "GAME"
  | magicHat => "MAGIC_HAT"
  | moon => "MOON"
  | inbox => "INBOX"
  | location => "LOCATION"
  | robot => "ROBOT"
  | services => "SERVICES"
  | shoppingCart => "SHOPPING_CART"

def byKey (key : String) : InstanceIcon :=
  (values.find? fun i => i.name = key).getD printer

end InstanceIcon

/-- The fields of an instance object that are written to the database; the id is not
null. -/
structure Instance where
  id : String
  name : String
  icon : InstanceIcon
  autostart : Bool
deriving DecidableEq, Repr

namespace BeamDB

/-- The loop of `getInstances` over the cursor. The cursor gives every cell as a text, so an
autostart is set when the text is `1`. -/
def readRows (t : Table) : List SqlTable.Row → List String → List Row
  | [], _ => []
  | row :: rows, seenIds =>
    let cv := t.contentValues row
    match getAsString cv COLUMN_ID with
    | none => readRows t rows seenIds
    | some id =>
      if id ∈ seenIds then readRows t rows seenIds
      else
        match getAsString cv COLUMN_NAME, getAsString cv COLUMN_ICON with
        | some name, some icon =>
          { id, name, icon := (InstanceIcon.byKey icon).name
            autostart := getAsString cv COLUMN_AUTOSTART = some "1" } ::
              readRows t rows (id :: seenIds)
        | _, _ => readRows t rows (id :: seenIds)

/-- `getInstances`. -/
def getInstances (t : Table) : List Row := readRows t t.rows []

/-- The values `insert` and `update` put; a `Boolean` is bound as an integer. -/
def valuesOf (inst : Instance) : List (String × Value) :=
  [(COLUMN_ID, .text inst.id), (COLUMN_NAME, .text inst.name),
    (COLUMN_ICON, .text inst.icon.name),
    (COLUMN_AUTOSTART, .integer (if inst.autostart then 1 else 0))]

/-- The statement of `insert`. -/
def insert (t : Table) (inst : Instance) : Table := t.replaceInto (valuesOf inst)

/-- The statement of `update`. -/
def update (t : Table) (inst : Instance) : Table :=
  t.updateWhere COLUMN_ID inst.id (valuesOf inst)

/-- The statement of `delete`. -/
def delete (t : Table) (id : String) : Table := t.deleteWhere COLUMN_ID id

end BeamDB

/-- The database and the registry of one process. -/
structure Store where
  table : Table
  registry : Registry

namespace Store

/-- A process that has just started. -/
def fresh (t : Table) : Store := ⟨t, Registry.empty⟩

/-- `KlipperInstance.onInstancesLoadedFromDB(getInstances())`, and the event that follows
unless an exception skips it. -/
def reload (s : Store) (hash : Oid → Nat) (dirs : String → Dirs) : Store :=
  let rows := BeamDB.getInstances s.table
  let (r, loaded) := s.registry.loadRows rows
  match r.onInstancesLoadedFromDB loaded (some rows) hash dirs with
  | (r, .returned) => { s with registry := r.fire .instancesRefreshed }
  | (r, .threw) => { s with registry := r }

/-- `KlipperInstance.getInstance`. -/
def getInstance (s : Store) (id : String) : Store × Option Oid :=
  let (r, o) := s.registry.getInstance id (some (BeamDB.getInstances s.table))
  ({ s with registry := r }, o)

/-- `KlipperInstance.getInstances`. -/
def getInstances (s : Store) : Store × List Oid :=
  let (r, os) := s.registry.getInstances (some (BeamDB.getInstances s.table))
  ({ s with registry := r }, os)

/-- What can happen to a store: the calls of `BeamDB`, the getters, what else the registry
does (`start`, `stop`, posted blocks and callbacks), and the end of the process. -/
inductive Call where
  | insert (inst : Instance) (hash : Oid → Nat) (dirs : String → Dirs)
  | update (inst : Instance) (hash : Oid → Nat) (dirs : String → Dirs)
  | delete (id : String) (hash : Oid → Nat) (dirs : String → Dirs)
  | getInstance (id : String)
  | getInstances
  | registry (a : Registry.Action)
  | restart

/-- The action is not a reload. -/
def NoReload : Registry.Action → Prop
  | .onInstancesLoadedFromDB .. => False
  | _ => True

instance : DecidablePred NoReload
  | .onInstancesLoadedFromDB .. => isFalse id
  | .start .. | .stop .. | .runPosted | .onServiceConnected .. | .onServiceDisconnected .. =>
    isTrue trivial

/-- One call. A process that has crashed makes none. -/
def step (s : Store) : Call → Option Store
  | .restart => some (fresh s.table)
  | .registry a =>
    if NoReload a then (s.registry.step a).map fun r => { s with registry := r } else none
  | .insert inst hash dirs =>
    if s.registry.crashed then none
    else some ({ s with table := BeamDB.insert s.table inst }.reload hash dirs)
  | .update inst hash dirs =>
    if s.registry.crashed then none
    else some ({ s with table := BeamDB.update s.table inst }.reload hash dirs)
  | .delete id hash dirs =>
    if s.registry.crashed then none
    else some ({ s with table := BeamDB.delete s.table id }.reload hash dirs)
  | .getInstance id => if s.registry.crashed then none else some (s.getInstance id).1
  | .getInstances => if s.registry.crashed then none else some s.getInstances.1

end Store

end Cream.Model
