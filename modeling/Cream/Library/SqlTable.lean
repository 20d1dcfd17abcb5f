import Mathlib.Data.List.Nodup
import Std.Data.String.ToInt

/-!
# Tables with column affinities

As much of an SQLite table as a migration sees: columns with a type affinity, one of them
perhaps a primary key that replaces on conflict, and rows of cells. A row is read as text
(`ContentValues`) and written from it; `insertOrReplace` refuses a row that names a column
the table does not have. `replaceInto`, `updateWhere` and `deleteWhere` write values bound to
columns. Two rules: a stored cell survives being read as text and stored
again (`Affinity.store_getString`), and rows with distinct keys are inserted one after the
other (`insertAll_eq`).
-/

set_option autoImplicit false

namespace Cream.Library.SqlTable

/-- A cell. -/
inductive Value where
  | null
  | integer (i : Int)
  | text (s : String)
deriving DecidableEq, Repr

inductive Affinity where
  | text
  | integer
deriving DecidableEq, Repr

/-- What is stored of a value. Under the integer affinity a text becomes an integer when it
is how that integer is written. -/
def Affinity.store : Affinity → Value → Value
  | .text, .integer i => .text (toString i)
  | .integer, .text s =>
    match s.toInt? with
    | some i => if toString i = s then .integer i else .text s
    | none => .text s
  | _, v => v

structure Column where
  name : String
  affinity : Affinity
deriving DecidableEq, Repr

/-- A cell for each column. -/
abbrev Row := String → Value

structure Table where
  columns : List Column
  /-- the column of a `PRIMARY KEY ON CONFLICT REPLACE` -/
  key : Option String
  rows : List Row

/-- A row as texts: the names of its columns, and `none` for a null. -/
abbrev ContentValues := List (String × Option String)

/-- `Cursor.getString`. -/
def Value.getString : Value → Option String
  | .null => none
  | .integer i => some (toString i)
  | .text s => some s

/-- The value bound for a text. -/
def Value.ofText : Option String → Value
  | none => .null
  | some s => .text s

/-- `DatabaseUtils.cursorRowToContentValues`. -/
def Table.contentValues (t : Table) (row : Row) : ContentValues :=
  t.columns.map fun c => (c.name, (row c.name).getString)

/-- `ContentValues.getAsString`. -/
def getAsString (cv : ContentValues) (name : String) : Option String := (cv.lookup name).join

/-- The row an insert stores. -/
def Table.rowOf (t : Table) (cv : ContentValues) : Row := fun name =>
  match t.columns.find? fun c => c.name = name with
  | some c => c.affinity.store (.ofText (getAsString cv name))
  | none => .null

/-- Two rows that a primary key does not allow together; nulls do not conflict. -/
def Table.Conflict (t : Table) (r r' : Row) : Prop :=
  ∃ k ∈ t.key, r k = r' k ∧ r k ≠ .null

instance (t : Table) (r r' : Row) : Decidable (t.Conflict r r') :=
  inferInstanceAs (Decidable (∃ k ∈ t.key, _))

/-- `insertWithOnConflict` with `CONFLICT_REPLACE`; it throws when the row has a column the
table does not have. -/
def Table.insertOrReplace (t : Table) (cv : ContentValues) : Option Table :=
  if ∀ p ∈ cv, p.1 ∈ t.columns.map Column.name then
    some { t with rows := (t.rows.filter fun r => ¬t.Conflict r (t.rowOf cv)) ++ [t.rowOf cv] }
  else none

/-- The cell of a column that a value is bound to. -/
def Table.cellOf (t : Table) (name : String) (v : Value) : Value :=
  match t.columns.find? fun c => c.name = name with
  | some c => c.affinity.store v
  | none => .null

/-- A row with some of its columns bound anew. -/
def Table.bind (t : Table) (vs : List (String × Value)) (row : Row) : Row := fun name =>
  match vs.lookup name with
  | some v => t.cellOf name v
  | none => row name

/-- `insertWithOnConflict` with `CONFLICT_REPLACE` of a row whose columns the table has. -/
def Table.replaceInto (t : Table) (vs : List (String × Value)) : Table :=
  let row := t.bind vs fun _ => .null
  { t with rows := (t.rows.filter fun r => ¬t.Conflict r row) ++ [row] }

/-- `updateWithOnConflict` with the condition that a column is a text. -/
def Table.updateWhere (t : Table) (name text : String) (vs : List (String × Value)) : Table :=
  { t with rows := t.rows.map fun r => if r name = .text text then t.bind vs r else r }

/-- `delete` with the condition that a column is a text. -/
def Table.deleteWhere (t : Table) (name text : String) : Table :=
  { t with rows := t.rows.filter fun r => ¬r name = .text text }

/-- Insert rows one after the other. -/
def Table.insertAll (t : Table) (cvs : List ContentValues) : Option Table :=
  cvs.foldlM Table.insertOrReplace t

/-- **A stored cell survives** being read as text and stored again. -/
theorem Affinity.store_getString {a : Affinity} {v : Value} (h : a.store v = v) :
    a.store (.ofText v.getString) = v := by
  cases v with
  | null => cases a <;> rfl
  | text s => exact h
  | integer i =>
    cases a with
    | text =>
      simp only [Affinity.store] at h
      cases h
    | integer =>
      have hread : (toString i).toInt? = some i := Int.toInt?_repr i
      simp only [Value.getString, Value.ofText, Affinity.store, hread, if_true]

/-- A column's text in a row that was read from a table. -/
theorem getAsString_contentValues {t : Table} (row : Row) {name : String}
    (h : name ∈ t.columns.map Column.name) :
    getAsString (t.contentValues row) name = (row name).getString := by
  have hlookup : ∀ cs : List Column, name ∈ cs.map Column.name →
      (cs.map fun c => (c.name, (row c.name).getString)).lookup name =
        some (row name).getString := by
    intro cs hcs
    induction cs with
    | nil => cases hcs
    | cons c cs ih =>
      rw [List.map_cons, List.lookup_cons]
      by_cases hc : name = c.name
      · subst hc
        simp
      · have htail : name ∈ cs.map Column.name := by
          rw [List.map_cons, List.mem_cons] at hcs
          exact hcs.resolve_left hc
        rw [beq_false_of_ne hc]
        exact ih htail
  unfold getAsString Table.contentValues
  rw [hlookup _ h]
  rfl

/-- **A row keeps its cells** when it is read from one table and stored in another, in a
column of the same affinity. -/
theorem rowOf_contentValues {t u : Table} {row : Row} {c : Column} (ht : c ∈ t.columns)
    (hu : c ∈ u.columns) (hnodup : (u.columns.map Column.name).Nodup)
    (hstored : c.affinity.store (row c.name) = row c.name) :
    u.rowOf (t.contentValues row) c.name = row c.name := by
  have hfind : (u.columns.find? fun d => d.name = c.name) = some c := by
    cases hf : u.columns.find? fun d => d.name = c.name with
    | none =>
      have hnone := List.find?_eq_none.mp hf c hu
      simp at hnone
    | some d =>
      have hd : d.name = c.name := by simpa using List.find?_some hf
      rw [List.inj_on_of_nodup_map hnodup (List.mem_of_find?_eq_some hf) hu hd]
  unfold Table.rowOf
  rw [hfind]
  simp only
  rw [getAsString_contentValues row (List.mem_map_of_mem ht)]
  exact c.affinity.store_getString hstored

/-- **Rows whose keys are distinct** are inserted one after the other. -/
theorem insertAll_eq {t : Table} {cvs : List ContentValues}
    (hcolumns : ∀ cv ∈ cvs, ∀ p ∈ cv, p.1 ∈ t.columns.map Column.name)
    (hold : ∀ cv ∈ cvs, ∀ r ∈ t.rows, ¬t.Conflict r (t.rowOf cv))
    (hnew : cvs.Pairwise fun cv cv' => ¬t.Conflict (t.rowOf cv) (t.rowOf cv')) :
    t.insertAll cvs = some { t with rows := t.rows ++ cvs.map t.rowOf } := by
  have hstep : ∀ (cvs : List ContentValues) (rows : List Row),
      (∀ cv ∈ cvs, ∀ p ∈ cv, p.1 ∈ t.columns.map Column.name) →
      (∀ cv ∈ cvs, ∀ r ∈ rows, ¬t.Conflict r (t.rowOf cv)) →
      cvs.Pairwise (fun cv cv' => ¬t.Conflict (t.rowOf cv) (t.rowOf cv')) →
      ({ t with rows := rows } : Table).insertAll cvs =
        some { t with rows := rows ++ cvs.map t.rowOf } := by
    intro cvs
    induction cvs with
    | nil =>
      intro rows _ _ _
      simp [Table.insertAll]
    | cons cv cvs ih =>
      intro rows hcolumns hold hnew
      rw [List.pairwise_cons] at hnew
      have hkeep : (rows.filter fun r => ¬t.Conflict r (t.rowOf cv)) = rows := by
        rw [List.filter_eq_self]
        exact fun r hr => decide_eq_true (hold cv List.mem_cons_self r hr)
      have hinsert : ({ t with rows := rows } : Table).insertOrReplace cv =
          some { t with rows := rows ++ [t.rowOf cv] } := by
        unfold Table.insertOrReplace
        rw [if_pos (hcolumns cv List.mem_cons_self)]
        exact congrArg (fun rs => some { t with rows := rs ++ [t.rowOf cv] }) hkeep
      have hrest := ih (rows ++ [t.rowOf cv])
        (fun c hc => hcolumns c (List.mem_cons_of_mem _ hc))
        (fun c hc r hr => by
          rcases List.mem_append.mp hr with hr | hr
          · exact hold c (List.mem_cons_of_mem _ hc) r hr
          · rw [List.mem_singleton.mp hr]
            exact hnew.1 c hc) hnew.2
      unfold Table.insertAll at hrest ⊢
      rw [List.foldlM_cons, hinsert]
      simp only [Option.bind_eq_bind, Option.bind_some, hrest, List.append_assoc,
        List.map_cons, List.cons_append, List.nil_append]
  exact hstep cvs t.rows hcolumns hold hnew

/-- A row that names an unknown column stops the inserts. -/
theorem insertAll_eq_none {t : Table} {cv : ContentValues} {cvs : List ContentValues}
    {p : String × Option String} (hp : p ∈ cv) (hunknown : p.1 ∉ t.columns.map Column.name) :
    t.insertAll (cv :: cvs) = none := by
  have hinsert : t.insertOrReplace cv = none := by
    unfold Table.insertOrReplace
    rw [if_neg fun hall => hunknown (hall p hp)]
  unfold Table.insertAll
  rw [List.foldlM_cons, hinsert]
  rfl

end Cream.Library.SqlTable
