import Cream.Model.BeamDB

/-!
# What an upgrade keeps

`onUpgrade` reads every old row with all its columns, replaces the table by the new one and
inserts what it has read. The columns it copies are those of the old table; a column the new
table lacks makes the first insert throw, and then everything is dropped. So an upgrade
keeps the instances just when the old table has only the new table's columns, or no row with
an id (`upgrade_keeps_instances`).
-/

set_option autoImplicit false

namespace Cream.Model

open Cream.Library.SqlTable

namespace BeamDB

variable {t : Table}

/-- A table an earlier version of the app can have left: it has the four columns of an
instance, perhaps others, and its cells are as their columns store them. -/
structure Released (t : Table) : Prop where
  names : (t.columns.map Column.name).Nodup
  instances : ∀ c ∈ newTable.columns, c ∈ t.columns
  stored : ∀ row ∈ t.rows, ∀ c ∈ t.columns, c.affinity.store (row c.name) = row c.name

/-- The upgraded database has the table of `onCreate`, one row for every id of the old
table, with the cells of an old row of that id, and no other row. -/
def Migrated (t : Table) (db : Database) : Prop :=
  ∃ u, db = some u ∧ u.columns = newTable.columns ∧ u.key = newTable.key ∧
    (∀ id, (∃ row ∈ t.rows, row COLUMN_ID = .text id) →
      ∃ r, (u.rows.filter fun r => r COLUMN_ID = .text id) = [r] ∧
        ∃ row ∈ t.rows, row COLUMN_ID = .text id ∧ r COLUMN_NAME = row COLUMN_NAME ∧
          r COLUMN_ICON = row COLUMN_ICON ∧ r COLUMN_AUTOSTART = row COLUMN_AUTOSTART) ∧
    ∀ r ∈ u.rows, ∃ row ∈ t.rows, row COLUMN_ID ≠ .null ∧ r COLUMN_ID = row COLUMN_ID

/-- The old table has no column the new one lacks. -/
def OnlyNewColumns (t : Table) : Prop :=
  ∀ c ∈ t.columns, c.name ∈ newTable.columns.map Column.name

/-- An id cell is null or a text. -/
theorem Released.id_cases (h : Released t) {row : Row} (hrow : row ∈ t.rows) :
    row COLUMN_ID = .null ∨ ∃ id, row COLUMN_ID = .text id := by
  have hcolumn : (⟨COLUMN_ID, .text⟩ : Column) ∈ t.columns := h.instances _ List.mem_cons_self
  have hstored := h.stored row hrow _ hcolumn
  cases hid : row COLUMN_ID with
  | null => exact .inl rfl
  | text id => exact .inr ⟨id, rfl⟩
  | integer i =>
    simp only [hid, Affinity.store] at hstored
    cases hstored

/-- A released table has the columns of the new one. -/
theorem Released.mem_names (h : Released t) {c : Column} (hc : c ∈ newTable.columns) :
    c.name ∈ t.columns.map Column.name :=
  List.mem_map_of_mem (h.instances c hc)

/-- The id `onUpgrade` reads of a row. -/
theorem Released.getAsString_id (h : Released t) (row : Row) :
    getAsString (t.contentValues row) COLUMN_ID = (row COLUMN_ID).getString :=
  getAsString_contentValues row (h.mem_names (c := ⟨COLUMN_ID, .text⟩) List.mem_cons_self)

/-- Storing a row of the old table in the new one keeps the cells of an instance. -/
theorem Released.rowOf (h : Released t) {row : Row} (hrow : row ∈ t.rows) {c : Column}
    (hc : c ∈ newTable.columns) :
    newTable.rowOf (t.contentValues row) c.name = row c.name :=
  rowOf_contentValues (h.instances c hc) hc (by decide)
    (h.stored row hrow c (h.instances c hc))

/-! ## The loop over the cursor -/

/-- What the loop collects comes from rows whose id is not null and not seen before. -/
theorem mem_existing {rows : List Row} {seen : List String} {cv : ContentValues}
    (hcv : cv ∈ existing t rows seen) :
    ∃ row ∈ rows, cv = t.contentValues row ∧
      ∃ id, getAsString cv COLUMN_ID = some id ∧ id ∉ seen := by
  induction rows generalizing seen with
  | nil => cases hcv
  | cons row rows ih =>
    unfold existing at hcv
    cases hid : getAsString (t.contentValues row) COLUMN_ID with
    | none =>
      simp only [hid] at hcv
      obtain ⟨r, hr, hrest⟩ := ih hcv
      exact ⟨r, List.mem_cons_of_mem _ hr, hrest⟩
    | some id =>
      simp only [hid] at hcv
      split at hcv
      · obtain ⟨r, hr, hrest⟩ := ih hcv
        exact ⟨r, List.mem_cons_of_mem _ hr, hrest⟩
      · next hseen =>
        rcases List.mem_cons.mp hcv with rfl | hcv
        · exact ⟨row, List.mem_cons_self, rfl, id, hid, hseen⟩
        · obtain ⟨r, hr, heq, i, hi, hnot⟩ := ih hcv
          exact ⟨r, List.mem_cons_of_mem _ hr, heq, i, hi,
            fun hmem => hnot (List.mem_cons_of_mem _ hmem)⟩

/-- No id is collected twice. -/
theorem existing_pairwise (rows : List Row) (seen : List String) :
    (existing t rows seen).Pairwise fun cv cv' =>
      getAsString cv COLUMN_ID ≠ getAsString cv' COLUMN_ID := by
  induction rows generalizing seen with
  | nil => exact .nil
  | cons row rows ih =>
    unfold existing
    cases hid : getAsString (t.contentValues row) COLUMN_ID with
    | none =>
      simp only [hid]
      exact ih seen
    | some id =>
      simp only [hid]
      split
      · exact ih seen
      · refine .cons (fun cv hcv => ?_) (ih (id :: seen))
        obtain ⟨-, -, -, i, hi, hnot⟩ := mem_existing hcv
        rw [hid, hi]
        intro heq
        cases heq
        exact hnot List.mem_cons_self

/-- Every id that is not null is collected. -/
theorem exists_mem_existing {rows : List Row} {seen : List String} {row : Row} {id : String}
    (hrow : row ∈ rows) (hid : getAsString (t.contentValues row) COLUMN_ID = some id)
    (hseen : id ∉ seen) : ∃ cv ∈ existing t rows seen, getAsString cv COLUMN_ID = some id := by
  induction rows generalizing seen with
  | nil => cases hrow
  | cons first rows ih =>
    unfold existing
    cases hfirst : getAsString (t.contentValues first) COLUMN_ID with
    | none =>
      simp only [hfirst]
      rcases List.mem_cons.mp hrow with rfl | hrow
      · rw [hid] at hfirst
        cases hfirst
      · exact ih hrow hseen
    | some i =>
      simp only [hfirst]
      by_cases hi : i = id
      · subst hi
        rw [if_neg hseen]
        exact ⟨_, List.mem_cons_self, hfirst⟩
      · have htail : row ∈ rows := by
          rcases List.mem_cons.mp hrow with rfl | hrow
          · rw [hid, Option.some.injEq] at hfirst
            exact absurd hfirst.symm hi
          · exact hrow
        split
        · exact ih htail hseen
        · have hnot : id ∉ i :: seen := by
            rw [List.mem_cons]
            exact fun hmem => hmem.elim (fun he => hi he.symm) hseen
          obtain ⟨cv, hcv, hcvid⟩ := ih htail hnot
          exact ⟨cv, List.mem_cons_of_mem _ hcv, hcvid⟩

/-! ## The two outcomes -/

/-- **The inserts come through** when no column is unknown: the new table has the collected
rows.
SOURCE: BeamDB.kt:38-42 -/
theorem Released.migrate_eq (h : Released t) (honly : OnlyNewColumns t) :
    migrate (some t) = some (some { newTable with
      rows := (existing t t.rows []).map newTable.rowOf }) := by
  have hid : ∀ cv ∈ existing t t.rows [], ∃ id, getAsString cv COLUMN_ID = some id ∧
      newTable.rowOf cv COLUMN_ID = .text id := by
    intro cv hcv
    obtain ⟨row, hrow, rfl, id, hcvid, -⟩ := mem_existing hcv
    refine ⟨id, hcvid, ?_⟩
    have hcell : newTable.rowOf (t.contentValues row) COLUMN_ID = row COLUMN_ID :=
      h.rowOf hrow (c := ⟨COLUMN_ID, .text⟩) List.mem_cons_self
    rw [hcell]
    rw [h.getAsString_id] at hcvid
    rcases h.id_cases hrow with hnull | ⟨i, hi⟩
    · rw [hnull] at hcvid
      cases hcvid
    · rw [hi] at hcvid
      cases hcvid
      exact hi
  have hfilled : newTable.insertAll (existing t t.rows []) =
      some { newTable with rows := newTable.rows ++ (existing t t.rows []).map newTable.rowOf } := by
    refine insertAll_eq (fun cv hcv p hp => ?_) (fun cv _ r hr => ?_) ?_
    · obtain ⟨row, -, rfl, -⟩ := mem_existing hcv
      obtain ⟨c, hc, rfl⟩ := List.mem_map.mp hp
      exact honly c hc
    · cases hr
    · refine (existing_pairwise t.rows []).imp_of_mem fun {cv cv'} hcv hcv' hne => ?_
      rintro ⟨k, hk, hsame, -⟩
      obtain ⟨i, hi, hrow⟩ := hid cv hcv
      obtain ⟨j, hj, hrow'⟩ := hid cv' hcv'
      cases hk
      rw [hrow, hrow'] at hsame
      cases hsame
      exact hne (hi.trans hj.symm)
  unfold migrate
  simp only [dropTable, onCreate, Option.getD_none, Option.bind_eq_bind, Option.bind_some,
    hfilled, Option.pure_def]
  rfl

/-- **The inserts throw** when there is an unknown column and a row to insert.
SOURCE: BeamDB.kt:41-46 -/
theorem Released.migrate_eq_none (h : Released t) {c : Column} (hc : c ∈ t.columns)
    (hunknown : c.name ∉ newTable.columns.map Column.name) {row : Row} (hrow : row ∈ t.rows)
    (hid : row COLUMN_ID ≠ .null) : migrate (some t) = none := by
  obtain ⟨id, hrowid⟩ := (h.id_cases hrow).resolve_left hid
  have hread : getAsString (t.contentValues row) COLUMN_ID = some id := by
    rw [h.getAsString_id, hrowid]
    rfl
  obtain ⟨cv, hcv, -⟩ := exists_mem_existing hrow hread List.not_mem_nil
  have hfailed : newTable.insertAll (existing t t.rows []) = none := by
    cases hlist : existing t t.rows [] with
    | nil =>
      rw [hlist] at hcv
      cases hcv
    | cons first rest =>
      have hfirst : first ∈ existing t t.rows [] := hlist ▸ List.mem_cons_self
      obtain ⟨r, -, rfl, -⟩ := mem_existing hfirst
      have hp : (c.name, (r c.name).getString) ∈ t.contentValues r :=
        List.mem_map_of_mem (f := fun c : Column => (c.name, (r c.name).getString)) hc
      exact insertAll_eq_none hp hunknown
  unfold migrate
  simp only [dropTable, onCreate, Option.getD_none, Option.bind_eq_bind, Option.bind_some,
    hfailed, Option.bind_none]

/-- An upgrade whose inserts come through keeps every instance. -/
theorem Released.migrated (h : Released t) :
    Migrated t (some { newTable with rows := (existing t t.rows []).map newTable.rowOf }) := by
  have hcell : ∀ row ∈ t.rows, ∀ c ∈ newTable.columns,
      newTable.rowOf (t.contentValues row) c.name = row c.name :=
    fun row hrow c hc => h.rowOf hrow hc
  have hidCell : ∀ row ∈ t.rows,
      newTable.rowOf (t.contentValues row) COLUMN_ID = row COLUMN_ID := fun row hrow =>
    hcell row hrow ⟨COLUMN_ID, .text⟩ (by decide)
  -- the cell and the collected text of an id are the same
  have hread : ∀ cv ∈ existing t t.rows [], ∀ id,
      newTable.rowOf cv COLUMN_ID = .text id ↔ getAsString cv COLUMN_ID = some id := by
    intro cv hcv id
    obtain ⟨row, hrow, rfl, i, hi, -⟩ := mem_existing hcv
    rw [hidCell row hrow, h.getAsString_id]
    rcases h.id_cases hrow with hnull | ⟨j, hj⟩
    · rw [hnull]
      exact ⟨nofun, nofun⟩
    · rw [hj]
      simp [Value.getString]
  refine ⟨_, rfl, rfl, rfl, fun id hid => ?_, fun r hr => ?_⟩
  · obtain ⟨row, hrow, hrowid⟩ := hid
    have hread' : getAsString (t.contentValues row) COLUMN_ID = some id := by
      rw [h.getAsString_id, hrowid]
      rfl
    obtain ⟨cv, hcv, hcvid⟩ := exists_mem_existing hrow hread' List.not_mem_nil
    obtain ⟨old, hold, rfl, -⟩ := mem_existing hcv
    refine ⟨newTable.rowOf (t.contentValues old), ?_, old, hold, ?_, ?_, ?_, ?_⟩
    · -- only one collected row has the id
      have hfilter : (existing t t.rows []).filter
          (fun cv => getAsString cv COLUMN_ID = some id) = [t.contentValues old] := by
        obtain ⟨pre, post, hsplit⟩ := List.append_of_mem hcv
        have hpair := existing_pairwise (t := t) t.rows []
        rw [hsplit] at hpair ⊢
        rw [List.pairwise_append, List.pairwise_cons] at hpair
        have hpre : pre.filter (fun cv => getAsString cv COLUMN_ID = some id) = [] := by
          rw [List.filter_eq_nil_iff]
          intro c hc hcid
          exact hpair.2.2 c hc _ List.mem_cons_self ((of_decide_eq_true hcid).trans hcvid.symm)
        have hpost : post.filter (fun cv => getAsString cv COLUMN_ID = some id) = [] := by
          rw [List.filter_eq_nil_iff]
          intro c hc hcid
          exact hpair.2.1.1 c hc (hcvid.trans (of_decide_eq_true hcid).symm)
        rw [List.filter_append, hpre, List.filter_cons_of_pos (by simpa using hcvid), hpost]
        rfl
      have hsame : ((existing t t.rows []).map newTable.rowOf).filter
          (fun r => r COLUMN_ID = .text id) =
          ((existing t t.rows []).filter
            fun cv => getAsString cv COLUMN_ID = some id).map newTable.rowOf := by
        rw [List.filter_map]
        refine congrArg _ (List.filter_congr fun cv hcv => ?_)
        simp only [Function.comp_apply, hread cv hcv id]
      rw [hsame, hfilter]
      rfl
    · rw [← hidCell old hold]
      exact (hread _ hcv id).mpr hcvid
    · exact hcell old hold ⟨COLUMN_NAME, .text⟩ (by decide)
    · exact hcell old hold ⟨COLUMN_ICON, .text⟩ (by decide)
    · exact hcell old hold ⟨COLUMN_AUTOSTART, .integer⟩ (by decide)
  · obtain ⟨cv, hcv, rfl⟩ := List.mem_map.mp hr
    obtain ⟨row, hrow, rfl, id, hid, -⟩ := mem_existing hcv
    refine ⟨row, hrow, fun hnull => ?_, hidCell row hrow⟩
    rw [h.getAsString_id, hnull] at hid
    cases hid

/-- With no id there is nothing to insert. -/
theorem Released.existing_eq_nil (h : Released t) (hnone : ∀ row ∈ t.rows, row COLUMN_ID = .null) :
    existing t t.rows [] = [] := by
  rw [List.eq_nil_iff_forall_not_mem]
  intro cv hcv
  obtain ⟨row, hrow, rfl, id, hid, -⟩ := mem_existing hcv
  rw [h.getAsString_id, hnone row hrow] at hid
  cases hid

/-- **What an upgrade keeps.** From a table an earlier version can have left, `onUpgrade`
ends with the new table and every instance in it, if and only if the old table has no
column the new one lacks, or no row with an id.
SOURCE: BeamDB.kt:23-48 -/
theorem upgrade_keeps_instances (h : Released t) {oldVersion : Nat} (hold : oldVersion < 4) :
    Migrated t (onUpgrade (some t) oldVersion) ↔
      OnlyNewColumns t ∨ ∀ row ∈ t.rows, row COLUMN_ID = .null := by
  unfold onUpgrade
  rw [if_pos hold]
  constructor
  · intro hmigrated
    by_contra hneither
    rw [not_or] at hneither
    obtain ⟨hcolumns, hids⟩ := hneither
    unfold OnlyNewColumns at hcolumns
    push Not at hcolumns hids
    obtain ⟨c, hc, hunknown⟩ := hcolumns
    obtain ⟨row, hrow, hid⟩ := hids
    rw [h.migrate_eq_none hc hunknown hrow hid] at hmigrated
    obtain ⟨u, hu, -, -, hkept, -⟩ := hmigrated
    obtain ⟨id, hrowid⟩ := (h.id_cases hrow).resolve_left hid
    obtain ⟨r, hr, -⟩ := hkept id ⟨row, hrow, hrowid⟩
    -- the table that is created after the exception is empty
    cases hu
    cases hr
  · rintro (honly | hnone)
    · rw [h.migrate_eq honly]
      exact h.migrated
    · have hmigrated := h.migrated
      rw [h.existing_eq_nil hnone] at hmigrated
      have hempty : migrate (some t) = some (some newTable) := by
        unfold migrate
        simp only [dropTable, onCreate, Option.getD_none, Option.bind_eq_bind, Option.bind_some,
          h.existing_eq_nil hnone]
        rfl
      rw [hempty]
      exact hmigrated

/-- A row with these cells, and nulls elsewhere. -/
def rowWith (cells : List (String × Value)) : Row := fun name => (cells.lookup name).getD .null

/-- The table of version 1, with an id twice and a null id. -/
def versionOne : Table where
  columns := newTable.columns
  key := none
  rows := [rowWith [(COLUMN_ID, .text "k1"), (COLUMN_NAME, .text "Ender"),
      (COLUMN_ICON, .text "PRINTER"), (COLUMN_AUTOSTART, .integer 1)],
    rowWith [(COLUMN_ID, .text "k1"), (COLUMN_NAME, .text "Old")],
    rowWith [(COLUMN_NAME, .text "Nameless")]]

/-- The table of version 2, with one instance. -/
def versionTwo : Table where
  columns := newTable.columns ++ [⟨"remote_id", .text⟩, ⟨"remote_token", .text⟩]
  key := none
  rows := [rowWith [(COLUMN_ID, .text "k1"), (COLUMN_NAME, .text "Ender"),
    (COLUMN_ICON, .text "PRINTER"), (COLUMN_AUTOSTART, .integer 1)]]

/-- A database of version 1 is migrated. -/
theorem upgrade_keeps_versionOne : Migrated versionOne (onUpgrade (some versionOne) 1) :=
  (upgrade_keeps_instances ⟨by decide, by decide, by decide⟩ (by decide)).mpr
    (.inl fun _ hc => List.mem_map_of_mem hc)

/-- A database of version 2 with an instance is not: it ends empty.
SOURCE: BeamDB.kt:41-46; BeamDB.java:40-43 -/
theorem upgrade_loses_versionTwo :
    ¬∀ t oldVersion, Released t → oldVersion < 4 →
      Migrated t (onUpgrade (some t) oldVersion) := by
  intro h
  have hreleased : Released versionTwo := ⟨by decide, by decide, by decide⟩
  have hfirst : versionTwo.rows.head (by decide) ∈ versionTwo.rows := List.head_mem _
  have hthrows := hreleased.migrate_eq_none (c := ⟨"remote_id", .text⟩) (by decide) (by decide)
    hfirst (by decide)
  have hmigrated := h versionTwo 2 hreleased (by decide)
  unfold onUpgrade at hmigrated
  rw [if_pos (by decide), hthrows] at hmigrated
  obtain ⟨u, hu, -, -, hkept, -⟩ := hmigrated
  cases hu
  obtain ⟨r, hr, -⟩ := hkept "k1" ⟨_, hfirst, by decide⟩
  cases hr

end BeamDB

end Cream.Model
