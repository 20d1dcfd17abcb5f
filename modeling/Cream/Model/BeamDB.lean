import Cream.Library.SqlTable

/-!
# The instances database

`BeamDB.kt`: what `onCreate` and `onUpgrade` do to the table of instances. A database is the
table, or nothing when the file has none.

SOURCE: BeamDB.kt:17-48, BeamDB.java:40-52
-/

set_option autoImplicit false

namespace Cream.Model

open Cream.Library.SqlTable

namespace BeamDB

def COLUMN_ID : String := "id"
def COLUMN_NAME : String := "name"
def COLUMN_ICON : String := "icon"
def COLUMN_AUTOSTART : String := "autostart"

/-- The table `instances`, if there is one. -/
abbrev Database := Option Table

/-- The table of the `CREATE TABLE` statement. -/
def newTable : Table where
  columns := [⟨COLUMN_ID, .text⟩, ⟨COLUMN_NAME, .text⟩, ⟨COLUMN_ICON, .text⟩,
    ⟨COLUMN_AUTOSTART, .integer⟩]
  key := some COLUMN_ID
  rows := []

/-- `onCreate`: `CREATE TABLE IF NOT EXISTS`. -/
def onCreate (db : Database) : Database := some (db.getD newTable)

/-- `DROP TABLE IF EXISTS`. -/
def dropTable (_ : Database) : Database := none

/-- The loop over the cursor: the first row of every id that is not null. -/
def existing (t : Table) : List Row → List String → List ContentValues
  | [], _ => []
  | row :: rows, seen =>
    let cv := t.contentValues row
    match getAsString cv COLUMN_ID with
    | none => existing t rows seen
    | some id => if id ∈ seen then existing t rows seen else cv :: existing t rows (id :: seen)

/-- The block of `onUpgrade` that may throw. -/
def migrate (db : Database) : Option Database := do
  let t ← db
  let cvs := existing t t.rows []
  let created ← onCreate (dropTable db)
  let filled ← created.insertAll cvs
  pure (some filled)

/-- `onUpgrade`. The transaction around it ends well in either case: the exception is
caught. -/
def onUpgrade (db : Database) (oldVersion : Nat) : Database :=
  if oldVersion < 4 then
    match migrate db with
    | some db => db
    | none => onCreate (dropTable db)
  else db

end BeamDB

end Cream.Model
