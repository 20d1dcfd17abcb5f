import Cream.Library.Transition
import Cream.Model.InstanceStore
import Cream.Analysis.SlotReload

/-!
# The store is a map

Three layers answer for the instances: the table, the list `instances`, and `instanceMap`
that fills itself from the list. Seen from outside they are one finite map from ids
(`store_refines_map`): after any calls the list holds the rows of the table, the map of
objects answers with elements of that list, and the table holds what the calls have put.

* The table is a list of instances with distinct ids (`Holds`); each statement is the
  operation of that name on the list (`insert_holds`, `update_holds`, `delete_holds`).
* The caches are either empty or hold the rows (`Cached`). A getter that finds the list empty
  fills it from the table (`Cached.getInstance`, `Cached.getInstances`), and a reload
  replaces both caches, whatever its own lookups have left in them (`reload_cached`).
-/

set_option autoImplicit false

namespace Cream.Model

open Cream.Library
open Cream.Library.Transition
open Cream.Library.SqlTable (Table Value getAsString getAsString_contentValues)

/-! ## The abstract map -/

/-- What the map keeps of an id. -/
structure Entry where
  name : String
  icon : InstanceIcon
  autostart : Bool
deriving DecidableEq, Repr

/-- The entry of an instance. -/
def Instance.entry (inst : Instance) : Entry := ⟨inst.name, inst.icon, inst.autostart⟩

/-- The row of an entry. -/
def Entry.row (e : Entry) (id : String) : Row := ⟨id, e.name, e.icon.name, e.autostart⟩

/-- What a call does to the map. -/
def Store.Call.apply (m : Finmap fun _ : String => Entry) :
    Store.Call → Finmap fun _ : String => Entry
  | .insert inst .. => m.insert inst.id inst.entry
  | .update inst .. => if inst.id ∈ m then m.insert inst.id inst.entry else m
  | .delete id .. => m.erase id
  | _ => m

/-! ## The table as a list of instances -/

namespace BeamDB

/-- The row of an instance as it is read. -/
def rowOf (inst : Instance) : Row := inst.entry.row inst.id

/-- The cells of an instance. -/
def cells (inst : Instance) : SqlTable.Row := newTable.bind (valuesOf inst) fun _ => .null

/-- The table that holds a list of instances. -/
def tableOf (l : List Instance) : Table := { newTable with rows := l.map cells }

/-- The column of the id. -/
@[simp] theorem cells_id (inst : Instance) : cells inst COLUMN_ID = .text inst.id := rfl

/-- The column of the name. -/
@[simp] theorem cells_name (inst : Instance) : cells inst COLUMN_NAME = .text inst.name := rfl

/-- The column of the icon. -/
@[simp] theorem cells_icon (inst : Instance) :
    cells inst COLUMN_ICON = .text inst.icon.name := rfl

/-- The column of autostart. -/
@[simp] theorem cells_autostart (inst : Instance) :
    cells inst COLUMN_AUTOSTART = .integer (if inst.autostart then 1 else 0) := rfl

/-- Binding all columns leaves nothing of the row there was. -/
theorem bind_cells (inst was : Instance) :
    newTable.bind (valuesOf inst) (cells was) = cells inst := by
  funext name
  unfold cells Table.bind
  cases h : (valuesOf inst).lookup name with
  | some v => rfl
  | none =>
    have hwas : (valuesOf was).lookup name = none := by
      simp only [valuesOf, List.lookup_cons, List.lookup_nil] at h ⊢
      revert h
      cases name == COLUMN_ID <;> cases name == COLUMN_NAME <;>
        cases name == COLUMN_ICON <;> cases name == COLUMN_AUTOSTART <;> simp
    simp only [hwas]

/-- Rows conflict in the id only. -/
theorem conflict_cells (inst was : Instance) :
    newTable.Conflict (cells was) (cells inst) ↔ was.id = inst.id := by
  unfold Table.Conflict
  constructor
  · rintro ⟨k, hk, heq, -⟩
    have hk : COLUMN_ID = k := by simpa [newTable] using hk
    subst hk
    simpa using heq
  · intro heq
    exact ⟨COLUMN_ID, rfl, by simp [heq], by simp⟩

/-- `insert` puts the instance behind the others, in place of one with its id.
SOURCE: BeamDB.kt:76-87 -/
theorem insert_tableOf (l : List Instance) (inst : Instance) :
    insert (tableOf l) inst = tableOf ((l.filter fun was => was.id ≠ inst.id) ++ [inst]) := by
  unfold insert Table.replaceInto tableOf
  have hkeep : ((l.map cells).filter fun r => ¬newTable.Conflict r (cells inst)) =
      (l.filter fun was => was.id ≠ inst.id).map cells := by
    rw [List.filter_map]
    congr 1
    exact List.filter_congr fun was _ => by simp [conflict_cells]
  rw [List.map_append, ← hkeep]
  rfl

/-- `update` replaces the instance with its id.
SOURCE: BeamDB.kt:89-99 -/
theorem update_tableOf (l : List Instance) (inst : Instance) :
    update (tableOf l) inst = tableOf (l.map fun was => if was.id = inst.id then inst else was) := by
  unfold update Table.updateWhere tableOf
  simp only [List.map_map]
  congr 1
  refine List.map_congr_left fun was _ => ?_
  simp only [Function.comp_apply, cells_id, Value.text.injEq]
  split
  · exact bind_cells inst was
  · rfl

/-- `delete` takes the instance with the id away.
SOURCE: BeamDB.kt:101-106 -/
theorem delete_tableOf (l : List Instance) (id : String) :
    delete (tableOf l) id = tableOf (l.filter fun was => was.id ≠ id) := by
  unfold delete Table.deleteWhere tableOf
  simp only [List.filter_map]
  congr 2
  exact List.filter_congr fun was _ => by simp

/-- An icon is found by its name. -/
theorem byKey_name (icon : InstanceIcon) : InstanceIcon.byKey icon.name = icon := by
  cases icon <;> decide

/-- The loop reads every instance of a table that holds distinct ids.
SOURCE: BeamDB.kt:50-74 -/
theorem readRows_cells {t : Table} (ht : t.columns = newTable.columns) (l : List Instance)
    (seen : List String) (hnodup : (l.map Instance.id).Nodup)
    (hnew : ∀ inst ∈ l, inst.id ∉ seen) :
    readRows t (l.map cells) seen = l.map rowOf := by
  have hread : ∀ (inst : Instance) (c : SqlTable.Column), c ∈ newTable.columns →
      getAsString (t.contentValues (cells inst)) c.name = (cells inst c.name).getString := by
    intro inst c hc
    exact getAsString_contentValues _ (ht ▸ List.mem_map_of_mem hc)
  induction l generalizing seen with
  | nil => rfl
  | cons inst l ih =>
    rw [List.map_cons, List.nodup_cons] at hnodup
    have hid := hread inst ⟨COLUMN_ID, .text⟩ (by simp [newTable])
    have hname := hread inst ⟨COLUMN_NAME, .text⟩ (by simp [newTable])
    have hicon := hread inst ⟨COLUMN_ICON, .text⟩ (by simp [newTable])
    have hauto := hread inst ⟨COLUMN_AUTOSTART, .integer⟩ (by simp [newTable])
    simp only [cells_id, Value.getString] at hid
    simp only [cells_name, Value.getString] at hname
    simp only [cells_icon, Value.getString] at hicon
    simp only [cells_autostart, Value.getString] at hauto
    have hone : decide (some (toString (if inst.autostart then (1 : Int) else 0)) = some "1") =
        inst.autostart := by
      cases inst.autostart <;> decide
    rw [List.map_cons, readRows]
    simp only [hid, hname, hicon, hauto, if_neg (hnew inst List.mem_cons_self), byKey_name, hone]
    have hrest : ∀ x ∈ l, x.id ∉ inst.id :: seen := by
      intro x hx
      rw [List.mem_cons, not_or]
      exact ⟨fun heq => hnodup.1 (heq ▸ List.mem_map_of_mem hx),
        hnew x (List.mem_cons_of_mem _ hx)⟩
    rw [ih (inst.id :: seen) hnodup.2 hrest]
    rfl

/-- The table of a list of instances is read as their rows. -/
theorem getInstances_tableOf {l : List Instance} (hnodup : (l.map Instance.id).Nodup) :
    getInstances (tableOf l) = l.map rowOf :=
  readRows_cells (t := tableOf l) rfl l [] hnodup fun _ _ => List.not_mem_nil

/-- A table holds what a map has: its rows are those of a list of instances with distinct
ids, and the map finds the entries of that list. -/
def Holds (t : Table) (m : Finmap fun _ : String => Entry) : Prop :=
  ∃ l : List Instance, t = tableOf l ∧ (l.map Instance.id).Nodup ∧
    ∀ id, m.lookup id = (l.find? fun inst => inst.id = id).map Instance.entry

/-- A new table holds the empty map. -/
theorem newTable_holds : Holds newTable ∅ := ⟨[], rfl, List.nodup_nil, fun _ => rfl⟩

/-- Without one id a list finds the others. -/
theorem find?_filter_ne (l : List Instance) (i id : String) :
    ((l.filter fun was => was.id ≠ i).find? fun inst => inst.id = id) =
      if id = i then none else l.find? fun inst => inst.id = id := by
  rw [List.find?_filter]
  split
  · next h =>
    subst h
    exact List.find?_eq_none.mpr fun was _ => by simp
  · next h =>
    refine List.find?_congr fun was _ => ?_
    by_cases hw : was.id = id
    · subst hw
      simp [h]
    · simp [hw]

/-- `delete` erases the id from the map. -/
theorem Holds.delete {t : Table} {m : Finmap fun _ : String => Entry} (h : Holds t m)
    (id : String) : Holds (delete t id) (m.erase id) := by
  obtain ⟨l, rfl, hnodup, hm⟩ := h
  refine ⟨_, delete_tableOf l id, hnodup.sublist (List.filter_sublist.map _), fun i => ?_⟩
  rw [find?_filter_ne]
  split
  · next hi =>
    subst hi
    rw [Finmap.lookup_erase]
    rfl
  · next hi =>
    rw [Finmap.lookup_erase_ne hi]
    exact hm i

/-- `insert` puts the entry into the map. -/
theorem Holds.insert {t : Table} {m : Finmap fun _ : String => Entry} (h : Holds t m)
    (inst : Instance) : Holds (insert t inst) (m.insert inst.id inst.entry) := by
  obtain ⟨l, rfl, hnodup, hm⟩ := h
  refine ⟨_, insert_tableOf l inst, ?_, fun i => ?_⟩
  · rw [List.map_append, List.nodup_append]
    refine ⟨hnodup.sublist (List.filter_sublist.map _), List.nodup_singleton _, ?_⟩
    intro a ha b hb
    obtain ⟨was, hwas, rfl⟩ := List.mem_map.mp ha
    rw [List.mem_singleton.mp hb]
    simpa using (List.mem_filter.mp hwas).2
  · rw [List.find?_append, find?_filter_ne]
    split
    · next hi =>
      subst hi
      rw [Finmap.lookup_insert]
      simp
    · next hi =>
      rw [Finmap.lookup_insert_of_ne _ hi, hm i]
      cases l.find? fun was => was.id = i with
      | some was => rfl
      | none => simp [Ne.symm hi]

/-- Replacing one instance replaces what is found for its id. -/
theorem find?_replace (l : List Instance) (inst : Instance) (id : String) :
    ((l.map fun was => if was.id = inst.id then inst else was).find? fun was => was.id = id) =
      if id = inst.id then (l.find? fun was => was.id = id).map fun _ => inst
      else l.find? fun was => was.id = id := by
  induction l with
  | nil => simp
  | cons was l ih =>
    rw [List.map_cons, List.find?_cons, List.find?_cons, ih]
    by_cases hw : was.id = inst.id <;> by_cases hi : id = inst.id <;>
      by_cases heq : was.id = id <;> simp_all

/-- `update` replaces the entry of an id that is there. -/
theorem Holds.update {t : Table} {m : Finmap fun _ : String => Entry} (h : Holds t m)
    (inst : Instance) :
    Holds (update t inst) (if inst.id ∈ m then m.insert inst.id inst.entry else m) := by
  obtain ⟨l, rfl, hnodup, hm⟩ := h
  have hids : (l.map fun was => if was.id = inst.id then inst else was).map Instance.id =
      l.map Instance.id := by
    rw [List.map_map]
    refine List.map_congr_left fun was _ => ?_
    simp only [Function.comp_apply]
    split
    · next hw => exact hw.symm
    · rfl
  have hmem : inst.id ∈ m ↔ (l.find? fun was => was.id = inst.id).isSome := by
    rw [← Finmap.lookup_isSome, hm, Option.isSome_map]
  refine ⟨_, update_tableOf l inst, hids ▸ hnodup, fun i => ?_⟩
  rw [find?_replace]
  by_cases hin : inst.id ∈ m
  · rw [if_pos hin]
    obtain ⟨was, hwas⟩ := Option.isSome_iff_exists.mp (hmem.mp hin)
    split
    · next hi =>
      subst hi
      rw [Finmap.lookup_insert, hwas]
      rfl
    · next hi => rw [Finmap.lookup_insert_of_ne _ hi, hm i]
  · rw [if_neg hin, hm i]
    split
    · next hi =>
      subst hi
      rw [Option.not_isSome_iff_eq_none.mp (hmem.not.mp hin)]
      rfl
    · rfl

end BeamDB

/-! ## What leaves the caches alone -/

namespace Registry

variable {s t u : Registry}

/-- The row an object carries. -/
def rowAt (s : Registry) (o : Oid) : Row := (s.heap o).toRow

/-- Neither the caches nor the rows of the objects change. -/
structure SameCaches (s t : Registry) : Prop where
  created : t.created = s.created
  row : ∀ x, t.rowAt x = s.rowAt x
  instances : t.instances = s.instances
  instanceMap : t.instanceMap = s.instanceMap

/-- Without a step the caches are the same. -/
theorem SameCaches.refl (s : Registry) : SameCaches s s := ⟨rfl, fun _ => rfl, rfl, rfl⟩

/-- Two steps that keep the caches keep them together. -/
theorem SameCaches.trans (h : SameCaches s t) (h' : SameCaches t u) : SameCaches s u where
  created := h'.created.trans h.created
  row x := (h'.row x).trans (h.row x)
  instances := h'.instances.trans h.instances
  instanceMap := h'.instanceMap.trans h.instanceMap

/-- Assigning fields of an object other than those of its row. -/
theorem SameCaches.modify (s : Registry) (o : Oid) {f : KlipperInstance → KlipperInstance}
    (hf : ∀ i, (f i).toRow = i.toRow) : SameCaches s (s.modify o f) where
  created := rfl
  row x := by
    unfold rowAt
    rw [modify_heap]
    by_cases hx : x = o
    · subst hx
      rw [Function.update_self, hf]
    · rw [Function.update_of_ne hx]
  instances := rfl
  instanceMap := rfl

/-- A link is no part of the caches. -/
theorem SameCaches.modifyLink (s : Registry) (o : Oid) (svc : Svc) (f : Link → Link) :
    SameCaches s (s.modifyLink o svc f) :=
  .modify s o fun _ => rfl

/-- Nor is a state. -/
theorem SameCaches.notifyStateChanged (s : Registry) (o : Oid) (st : State) :
    SameCaches s (s.notifyStateChanged o st) := by
  have hrow : ∀ x, (s.notifyStateChanged o st).rowAt x = s.rowAt x := by
    intro x
    unfold rowAt
    rw [notifyStateChanged_heap]
    by_cases hx : x = o
    · subst hx
      rw [Function.update_self]
    · rw [Function.update_of_ne hx]
  cases st <;> exact ⟨rfl, hrow, rfl, rfl⟩

/-- `stop` keeps the caches. -/
theorem SameCaches.stop (s : Registry) (o : Oid) : SameCaches s (s.stop o) := by
  unfold Registry.stop
  split
  · exact .refl s
  · have hnotify := SameCaches.notifyStateChanged s o .stopping
    exact ⟨hnotify.created, hnotify.row, hnotify.instances, hnotify.instanceMap⟩

/-- `start` keeps the caches.
SOURCE: KlipperInstance.kt:46-133 -/
theorem SameCaches.start (s : Registry) (o : Oid) (dirs : Dirs) :
    SameCaches s (s.start o dirs).1 := by
  have hnotify := SameCaches.notifyStateChanged s o .starting
  have hslot : ∀ k : Int, SameCaches s
      ((s.notifyStateChanged o .starting).modify o fun i => { i with slot := k }) :=
    fun k => hnotify.trans (.modify _ o fun _ => rfl)
  unfold Registry.start
  split
  · exact .refl s
  · simp only
    split
    · exact hnotify.trans (.stop _ o)
    · split
      · exact hnotify.trans (.stop _ o)
      · split
        · exact hslot (-1)
        · next k _ =>
          exact ⟨(hslot k).created, (hslot k).row, (hslot k).instances, (hslot k).instanceMap⟩

/-- A service that is gone keeps them. -/
theorem SameCaches.onUnbound (svc : Svc) (s : Registry) (o : Oid) :
    SameCaches s (Registry.onUnbound svc s o) := by
  have hlink := SameCaches.modifyLink s o svc fun l =>
    { l with connection := none, connected := false }
  unfold Registry.onUnbound
  simp only
  split
  · exact hlink
  · exact hlink.trans (.notifyStateChanged _ o .idle)

/-- Releasing a link keeps them. -/
theorem SameCaches.releaseLink (svc : Svc) (s : Registry) (o : Oid) :
    SameCaches s (Registry.releaseLink svc s o) := by
  unfold Registry.releaseLink
  split
  · exact .refl s
  · next c _ =>
    have hunbind : SameCaches s (s.unbindService c) := ⟨rfl, fun _ => rfl, rfl, rfl⟩
    exact hunbind.trans (.onUnbound svc _ o)

/-- Binding a service keeps them. -/
theorem SameCaches.bindService (s : Registry) (o : Oid) (svc : Svc) (instId : String) :
    SameCaches s (s.bindService o svc instId) := by
  have hlink := SameCaches.modifyLink s o svc fun l =>
    { l with intent := some (s.heap o).slot, connection := some s.nextConn }
  exact ⟨hlink.created, hlink.row, hlink.instances, hlink.instanceMap⟩

/-- The block of `start` keeps them. -/
theorem SameCaches.runBind (s : Registry) (o : Oid) (instId : String) :
    SameCaches s (s.runBind o instId) := by
  have hk := SameCaches.bindService s o .klippy instId
  unfold Registry.runBind
  split
  · exact hk.trans (.bindService _ o .moonraker instId)
  · exact ⟨rfl, fun _ => rfl, rfl, rfl⟩

/-- The block of `stop` keeps them. -/
theorem SameCaches.runUnbind (s : Registry) (o : Oid) : SameCaches s (s.runUnbind o) := by
  have hlinks := (SameCaches.releaseLink .klippy s o).trans (.releaseLink .moonraker _ o)
  have hclear := hlinks.trans
    (.modify _ o (f := fun i => { i with link := fun _ => {} }) fun _ => rfl)
  unfold Registry.runUnbind
  simp only
  split
  · exact hclear.trans (.notifyStateChanged _ o .idle)
  · exact hclear

/-- Stopping the servers keeps them. -/
theorem SameCaches.stopServers (s : Registry) : SameCaches s s.stopServerServicesIfNoSlots := by
  unfold stopServerServicesIfNoSlots
  split
  · exact .refl s
  · cases s.webServerConnection <;> cases s.cameraServerConnection <;>
      exact ⟨rfl, fun _ => rfl, rfl, rfl⟩

/-- A posted block leaves the caches alone. -/
theorem SameCaches.runBlock (s : Registry) (b : Block) : SameCaches s (s.runBlock b) := by
  cases b with
  | bind o instId => exact .runBind s o instId
  | unbind o => exact .runUnbind s o
  | stopServers => exact .stopServers s
  | bindServers =>
    have hsame := runBindServers_same s
    exact ⟨hsame.created, fun x => congrArg KlipperInstance.toRow (congrFun hsame.heap x),
      hsame.instances, hsame.instanceMap⟩

/-- Whatever the registry does other than a reload leaves the caches alone. -/
theorem SameCaches.step {a : Action} (ha : Store.NoReload a) (h : s.step a = some t) :
    SameCaches s t := by
  unfold Registry.step at h
  split at h
  · cases h
  · cases a with
    | start o dirs =>
      simp only [Option.ite_none_right_eq_some, Option.some.injEq] at h
      exact h.2 ▸ .start s o dirs
    | stop o =>
      simp only [Option.ite_none_right_eq_some, Option.some.injEq] at h
      exact h.2 ▸ .stop s o
    | onInstancesLoadedFromDB rows db hash dirs => exact ha.elim
    | runPosted =>
      cases hq : s.queue with
      | nil => simp [hq] at h
      | cons b q =>
        simp only [hq, Option.some.injEq] at h
        have hpop : SameCaches s { s with queue := q } := ⟨rfl, fun _ => rfl, rfl, rfl⟩
        exact h ▸ hpop.trans (.runBlock _ b)
    | onServiceConnected c =>
      obtain ⟨b, -, rfl⟩ := Option.map_eq_some_iff.mp h
      have hset : SameCaches s (s.setConnected b.conn true) := ⟨rfl, fun _ => rfl, rfl, rfl⟩
      have hlink := hset.trans (.modifyLink _ b.owner b.svc fun l => { l with connected := true })
      unfold Registry.onServiceConnected
      simp only
      split
      · exact hlink.trans (.notifyStateChanged _ b.owner .running)
      · exact hlink
    | onServiceDisconnected c =>
      obtain ⟨b, -, rfl⟩ := Option.map_eq_some_iff.mp h
      have hset : SameCaches s (s.setConnected b.conn false) := ⟨rfl, fun _ => rfl, rfl, rfl⟩
      exact hset.trans (.onUnbound b.svc _ b.owner)

/-! ## The getters -/

/-- The caches hold nothing, or the rows of the database; the map only has elements of the
list. -/
structure Cached (s : Registry) (rows : List Row) : Prop where
  exist : ∀ o ∈ s.instances, o < s.created
  rows : s.instances = [] ∨ s.instances.map s.rowAt = rows
  map : ∀ i o, s.instanceMap i = some o → o ∈ s.instances ∧ s.idOf o = i

/-- What the caches refer to exists. -/
theorem Cached.indexed {rows : List Row} (h : Cached s rows) : Indexed s where
  instances := h.exist
  instanceMap i o ho := ⟨h.exist o (h.map i o ho).1, (h.map i o ho).2⟩

/-- Steps that keep the caches keep what they hold. -/
theorem Cached.same {rows : List Row} (h : Cached s rows) (hsame : SameCaches s t) :
    Cached t rows where
  exist o ho := by
    rw [hsame.created]
    exact h.exist o (hsame.instances ▸ ho)
  rows := by
    rw [hsame.instances, List.map_congr_left fun o _ => hsame.row o]
    exact h.rows
  map i o ho := by
    rw [hsame.instanceMap] at ho
    obtain ⟨hmem, hid⟩ := h.map i o ho
    exact ⟨hsame.instances ▸ hmem, (congrArg Row.id (hsame.row o)).trans hid⟩

/-- The object found for an id carries the row found for it. -/
theorem map_findById (s : Registry) (os : List Oid) (i : String) :
    (s.findById os i).map s.rowAt = (os.map s.rowAt).find? fun row => row.id = i := by
  rw [List.find?_map]
  rfl

/-- The loaded objects carry the rows. -/
theorem Loaded.rowAt {rows : List Row} {os : List Oid} (h : Loaded s rows t os) :
    os.map t.rowAt = rows := by
  have hrows : (os.map t.heap).map KlipperInstance.toRow = rows := by
    rw [h.objects, List.map_map]
    exact List.map_id rows
  rw [← hrows, List.map_map]
  rfl

/-- A load leaves the caches alone. -/
theorem Loaded.cached {rows rows' : List Row} {os : List Oid} (h : Loaded s rows' t os)
    (hc : Cached s rows) : Cached t rows := by
  have hinst : t.instances = s.instances := by rw [h.eq]
  have hmap : t.instanceMap = s.instanceMap := by rw [h.eq]
  have hrow : ∀ o ∈ s.instances, t.rowAt o = s.rowAt o := fun o ho =>
    congrArg KlipperInstance.toRow (h.heap o (hc.exist o ho))
  refine ⟨fun o ho => ?_, ?_, fun i o ho => ?_⟩
  · exact (hc.exist o (hinst ▸ ho)).trans_le h.created
  · rw [hinst, List.map_congr_left hrow]
    exact hc.rows
  · rw [hmap] at ho
    obtain ⟨hmem, hid⟩ := hc.map i o ho
    exact ⟨hinst ▸ hmem, (congrArg Row.id (hrow o hmem)).trans hid⟩

/-- The map answers with what the list has. -/
theorem Cached.registered {rows : List Row} (h : Cached s rows)
    (hnodup : (rows.map Row.id).Nodup) (i : String) :
    s.registered i = s.findById s.instances i := by
  rw [registered_eq]
  cases hmap : s.instanceMap i with
  | none => rw [Option.none_or]
  | some o =>
    obtain ⟨hmem, rfl⟩ := h.map i o hmap
    have hids : (s.instances.map s.idOf).Nodup := by
      rcases h.rows with hnil | hrows
      · rw [hnil]
        exact List.nodup_nil
      · rw [← hrows, List.map_map] at hnodup
        exact hnodup
    rw [Option.some_or, findById_of_mem hids hmem]

/-- What a call of `getInstance` answers, and that it leaves the caches as they must be. -/
structure Answered (s : Registry) (rows : List Row) (i : String) (t : Registry)
    (r : Option Oid) : Prop where
  cached : Cached t rows
  row : r.map t.rowAt = rows.find? fun row => row.id = i
  element : ∀ o, r = some o → o ∈ t.instances
  listed : s.instances ≠ [] → r = s.findById s.instances i

/-- **`getInstance`** answers the element of the list with that id.
SOURCE: KlipperInstance.kt:293-320 -/
theorem Cached.getInstance {rows : List Row} (h : Cached s rows)
    (hnodup : (rows.map Row.id).Nodup) (i : String) :
    Answered s rows i (s.getInstance i (some rows)).1 (s.getInstance i (some rows)).2 := by
  have hlisted : s.instances ≠ [] → (s.findById s.instances i).map s.rowAt =
      rows.find? fun row => row.id = i := fun hne => by
    rw [map_findById, h.rows.resolve_left hne]
  cases hreg : s.registered i with
  | some o =>
    have hget : s.getInstance i (some rows) = ((s.instanceMapGet i).1, some o) := by
      unfold Registry.getInstance
      rw [show s.instanceMapGet i = ((s.instanceMapGet i).1, some o) from Prod.ext rfl hreg]
    have heq := instanceMapGet_eq (s := s) i
    have hfind : s.findById s.instances i = some o := (h.registered hnodup i).symm.trans hreg
    have hmem := (findById_some hfind).1
    have hne : s.instances ≠ [] := List.ne_nil_of_mem hmem
    have hcached : Cached (s.instanceMapGet i).1 rows := by
      refine ⟨?_, ?_, fun j x hx => ?_⟩
      · rw [heq]
        exact h.exist
      · rw [heq]
        exact h.rows
      · have hx := (h.registered hnodup j).symm.trans (instanceMapGet_map hx)
        rw [heq]
        exact findById_some hx
    rw [hget]
    refine ⟨hcached, ?_, fun x hx => ?_, fun _ => hfind.symm⟩
    · rw [← hlisted hne, hfind, heq]
      rfl
    · rw [heq]
      exact Option.some.inj hx ▸ hmem
  | none =>
    have hfind : s.findById s.instances i = none := (h.registered hnodup i).symm.trans hreg
    have hload := loadRows_spec s rows
    unfold Registry.getInstance
    rw [instanceMapGet_none hreg]
    simp only
    set t := (s.loadRows rows).1
    set all := (s.loadRows rows).2
    have hcached := hload.cached h
    have hall : (t.findById all i).map t.rowAt = rows.find? fun row => row.id = i := by
      rw [map_findById, hload.rowAt]
    cases hdb : t.findById all i with
    | none =>
      refine ⟨hcached, ?_, fun o ho => (nomatch ho), fun _ => hfind.symm⟩
      rw [← hall, hdb]
    | some o =>
      -- the list is empty: a list that holds the rows would have the id
      have hnil : s.instances = [] := by
        by_contra hne
        have hcontra := hlisted hne
        rw [hfind, ← hall, hdb] at hcontra
        cases hcontra
      have hinst : t.instances = [] := by rw [hload.eq, hnil]
      have hmap : ∀ j x, t.instanceMap j ≠ some x := by
        intro j x hx
        have hx := (hcached.map j x hx).1
        rw [hinst] at hx
        cases hx
      obtain ⟨hoall, hoid⟩ := findById_some hdb
      simp only [hinst, List.isEmpty_nil, if_true]
      refine ⟨⟨fun x hx => (hload.range x hx).2, .inr hload.rowAt, fun j x hx => ?_⟩, ?_,
        fun x hx => Option.some.inj hx ▸ hoall, fun hne => absurd hnil hne⟩
      · by_cases hj : j = i
        · subst hj
          simp only [Function.update_self, Option.some.injEq] at hx
          subst hx
          exact ⟨hoall, hoid⟩
        · simp only [Function.update_of_ne hj] at hx
          exact absurd hx (hmap j x)
      · rw [← hall, hdb]
        rfl

/-- **`getInstances`** answers the rows of the database, and keeps what it answers.
SOURCE: KlipperInstance.kt:322-332 -/
theorem Cached.getInstances {rows : List Row} (h : Cached s rows) :
    Cached (s.getInstances (some rows)).1 rows ∧
      (s.getInstances (some rows)).2 = (s.getInstances (some rows)).1.instances ∧
      (s.getInstances (some rows)).2.map (s.getInstances (some rows)).1.rowAt = rows := by
  have hload := loadRows_spec s rows
  unfold Registry.getInstances
  cases hinst : s.instances with
  | cons o os =>
    simp only [List.isEmpty_cons, Bool.false_eq_true, if_false]
    exact ⟨h, hinst.symm, hinst ▸ h.rows.resolve_left (by rw [hinst]; exact List.cons_ne_nil o os)⟩
  | nil =>
    simp only [List.isEmpty_nil, if_true]
    set t := (s.loadRows rows).1
    set loaded := (s.loadRows rows).2
    have hcached := hload.cached h
    have hnil : t.instances = [] := by rw [hload.eq, hinst]
    cases hloaded : loaded with
    | nil =>
      simp only [List.isEmpty_nil, if_true]
      refine ⟨hcached, trivial, ?_⟩
      rw [hnil, ← hload.rowAt]
      exact (congrArg (List.map t.rowAt) hloaded).symm
    | cons o os =>
      simp only [List.isEmpty_cons, Bool.false_eq_true, if_false]
      have hrows : (o :: os).map t.rowAt = rows := hloaded ▸ hload.rowAt
      refine ⟨⟨fun x hx => (hload.range x (hloaded ▸ hx)).2, .inr hrows, fun j x hx => ?_⟩,
        trivial, hrows⟩
      have hx := (hcached.map j x hx).1
      rw [hnil] at hx
      cases hx

/-! ## A reload -/

/-- The objects there were carry the rows they carried. -/
structure KeepsRows (s t : Registry) : Prop where
  created : s.created ≤ t.created
  row : ∀ x < s.created, t.rowAt x = s.rowAt x

/-- Two steps that keep the rows keep them together. -/
theorem KeepsRows.trans (h : KeepsRows s t) (h' : KeepsRows t u) : KeepsRows s u where
  created := h.created.trans h'.created
  row x hx := (h'.row x (hx.trans_le h.created)).trans (h.row x hx)

/-- Steps that keep the caches keep the rows. -/
theorem SameCaches.keepsRows (h : SameCaches s t) : KeepsRows s t :=
  ⟨h.created.ge, fun x _ => h.row x⟩

/-- Adopting the fields of an old object changes no row. -/
theorem keepsRows_adoptRow (hi : Indexed s) (db : Option (List Row)) (inst : Oid) :
    KeepsRows s (adoptRow db s inst) ∧ Indexed (adoptRow db s inst) := by
  have hlooked := getInstance_looked hi (s.idOf inst) db
  have hkeeps : KeepsRows s (s.getInstance (s.idOf inst) db).1 :=
    ⟨hlooked.created, fun x hx => congrArg KlipperInstance.toRow (hlooked.heap x hx)⟩
  have hindexed := hlooked.indexed hi
  unfold adoptRow
  split
  · next t was heq =>
    rw [heq] at hkeeps hindexed
    have hrow : ∀ x, (t.adopt inst was).rowAt x = t.rowAt x := by
      intro x
      rw [adopt_eq]
      by_cases hx : x = inst
      · subst hx
        simp [Registry.rowAt]
      · simp [Registry.rowAt, hx]
    have hcreated : (t.adopt inst was).created = t.created := by rw [adopt_eq]
    have hadopt : KeepsRows t (t.adopt inst was) := ⟨hcreated.ge, fun x _ => hrow x⟩
    refine ⟨hkeeps.trans hadopt, fun x hx => ?_, fun j x hx => ?_⟩
    · rw [adopt_eq] at hx
      exact hcreated.symm ▸ hindexed.instances x hx
    · rw [adopt_eq] at hx
      obtain ⟨hlt, hid⟩ := hindexed.instanceMap j x hx
      exact ⟨hcreated.symm ▸ hlt, (congrArg Row.id (hrow x)).trans hid⟩
  · next t heq =>
    rw [heq] at hkeeps hindexed
    exact ⟨hkeeps, hindexed⟩

/-- The adoption loop keeps the rows. -/
theorem keepsRows_adoptRows (db : Option (List Row)) (loaded : List Oid) (hi : Indexed s) :
    KeepsRows s (loaded.foldl (adoptRow db) s) := by
  induction loaded generalizing s with
  | nil => exact ⟨le_rfl, fun _ _ => rfl⟩
  | cons inst loaded ih =>
    obtain ⟨hkeeps, hindexed⟩ := keepsRows_adoptRow hi db inst
    exact hkeeps.trans (ih hindexed)

/-- The drop loop keeps the caches. -/
theorem sameCaches_dropMissing (ids : List String) (keys : List Oid) (s : Registry) :
    SameCaches s (keys.foldl (dropMissing ids) s) := by
  induction keys generalizing s with
  | nil => exact .refl s
  | cons was keys ih =>
    have hfirst : SameCaches s (dropMissing ids s was) := by
      unfold dropMissing
      split
      · exact .refl s
      · have herase : SameCaches s { s with slots := s.slots.erase was } :=
          ⟨rfl, fun _ => rfl, rfl, rfl⟩
        exact herase.trans (.stop _ was)
    exact hfirst.trans (ih _)

/-- So does the autostart loop. -/
theorem sameCaches_autostartAll (dirs : String → Dirs) (rest : List Oid) (s : Registry) :
    SameCaches s (autostartAll dirs s rest).1 := by
  induction rest generalizing s with
  | nil => exact .refl s
  | cons inst rest ih =>
    have hstart := SameCaches.start s inst (dirs (s.idOf inst))
    unfold autostartAll
    split
    · split
      · next t heq =>
        rw [heq] at hstart
        exact hstart.trans (ih t)
      · next t heq =>
        rw [heq] at hstart
        exact hstart
    · exact ih s

/-- **A reload** leaves the caches with the rows it has loaded, also when an exception ends
it.
SOURCE: KlipperInstance.kt:249-291 -/
theorem reload_cached {rows : List Row} {loaded : List Oid} (hload : Loaded s rows t loaded)
    (hi : Indexed t) (db : Option (List Row)) (hash : Oid → Nat) (dirs : String → Dirs) :
    Cached (t.onInstancesLoadedFromDB loaded db hash dirs).1 rows := by
  have hadopt := keepsRows_adoptRows db loaded hi
  unfold Registry.onInstancesLoadedFromDB
  simp only
  set s₁ := loaded.foldl (adoptRow db) t
  set keys := s₁.slots.keys.insertionSort fun a b => hash a ≤ hash b
  have hdrop := sameCaches_dropMissing (loaded.map s₁.idOf) keys s₁
  set s₂ := keys.foldl (dropMissing (loaded.map s₁.idOf)) s₁
  have hkeeps := hadopt.trans hdrop.keepsRows
  have hrefreshed : Cached (s₂.refresh loaded) rows := by
    refine ⟨fun o ho => ?_, .inr ?_, fun i o ho => (nomatch ho)⟩
    · exact (hload.range o ho).2.trans_le hkeeps.created
    · have hrow : ∀ o ∈ loaded, (s₂.refresh loaded).rowAt o = t.rowAt o := fun o ho =>
        hkeeps.row o (hload.range o ho).2
      exact (List.map_congr_left hrow).trans hload.rowAt
  exact hrefreshed.same (sameCaches_autostartAll dirs loaded _)

end Registry

/-! ## The store -/

namespace BeamDB

/-- The rows of a table that holds a map have distinct ids. -/
theorem Holds.nodup {t : Table} {m : Finmap fun _ : String => Entry} (h : Holds t m) :
    ((getInstances t).map Row.id).Nodup := by
  obtain ⟨l, rfl, hnodup, -⟩ := h
  rw [getInstances_tableOf hnodup, List.map_map]
  exact hnodup

/-- The query finds what the map has. -/
theorem Holds.find? {t : Table} {m : Finmap fun _ : String => Entry} (h : Holds t m)
    (id : String) :
    ((getInstances t).find? fun row => row.id = id) = (m.lookup id).map fun e => e.row id := by
  obtain ⟨l, rfl, hnodup, hm⟩ := h
  rw [getInstances_tableOf hnodup, hm, List.find?_map, Option.map_map]
  have hfind : (l.find? ((fun row : Row => decide (row.id = id)) ∘ rowOf)) =
      l.find? fun inst => inst.id = id := List.find?_congr fun _ _ => rfl
  rw [hfind]
  cases hl : l.find? fun inst => inst.id = id with
  | none => rfl
  | some inst =>
    have hid : inst.id = id := by simpa using List.find?_some hl
    subst hid
    rfl

/-- The query gives the rows of the map and no others. -/
theorem Holds.mem_getInstances {t : Table} {m : Finmap fun _ : String => Entry} (h : Holds t m)
    (row : Row) : row ∈ getInstances t ↔ ∃ e, m.lookup row.id = some e ∧ row = e.row row.id := by
  have hfind := h.find? row.id
  constructor
  · intro hmem
    have hsome : ((getInstances t).find? fun r => r.id = row.id) = some row := by
      cases hf : (getInstances t).find? fun r => r.id = row.id with
      | none => simpa using List.find?_eq_none.mp hf row hmem
      | some r =>
        have hid : r.id = row.id := by simpa using List.find?_some hf
        rw [List.inj_on_of_nodup_map h.nodup (List.mem_of_find?_eq_some hf) hmem hid]
    rw [hsome] at hfind
    obtain ⟨e, he, hrow⟩ := Option.map_eq_some_iff.mp hfind.symm
    exact ⟨e, he, hrow.symm⟩
  · rintro ⟨e, he, hrow⟩
    rw [he, Option.map_some, ← hrow] at hfind
    exact List.mem_of_find?_eq_some hfind

end BeamDB

namespace Store

variable {s t : Store} {m : Finmap fun _ : String => Entry}

/-- The getters, the database and a map agree, and the two getters answer with the same
objects. -/
structure Agrees (s : Store) (m : Finmap fun _ : String => Entry) : Prop where
  distinct : ((BeamDB.getInstances s.table).map Row.id).Nodup
  database : ∀ row, row ∈ BeamDB.getInstances s.table ↔
    ∃ e, m.lookup row.id = some e ∧ row = e.row row.id
  getInstances : s.getInstances.2.map s.getInstances.1.registry.rowAt =
    BeamDB.getInstances s.table
  getInstance : ∀ id, (s.getInstance id).2.map (s.getInstance id).1.registry.rowAt =
    (m.lookup id).map fun e => e.row id
  element : ∀ id, (s.getInstances.1.getInstance id).2 =
    s.getInstances.1.registry.findById s.getInstances.2 id
  listed : ∀ id o, (s.getInstance id).2 = some o → o ∈ (s.getInstance id).1.getInstances.2

/-- The table holds the map, and the caches are as the getters need them. -/
structure Refines (s : Store) (m : Finmap fun _ : String => Entry) : Prop where
  holds : BeamDB.Holds s.table m
  cached : s.registry.Cached (BeamDB.getInstances s.table)

/-- What refines the map agrees with it. -/
theorem Refines.agrees (h : Refines s m) : Agrees s m where
  distinct := h.holds.nodup
  database := h.holds.mem_getInstances
  getInstances := h.cached.getInstances.2.2
  getInstance id := (h.cached.getInstance h.holds.nodup id).row.trans (h.holds.find? id)
  element id := by
    obtain ⟨hcached, hlist, hrows⟩ := h.cached.getInstances
    have hanswer := hcached.getInstance h.holds.nodup id
    by_cases hne : s.getInstances.1.registry.instances = []
    · -- nothing is listed, so nothing is stored and nothing is found
      have hnil : s.getInstances.2 = [] := hlist.trans hne
      have hempty : BeamDB.getInstances s.table = [] := by
        rw [← hrows]
        exact congrArg _ hnil
      have hnone : ((BeamDB.getInstances s.table).find? fun row => row.id = id) = none := by
        rw [hempty]
        rfl
      rw [hnil]
      exact Option.map_eq_none_iff.mp (hanswer.row.trans hnone)
    · exact (hanswer.listed hne).trans (congrArg
        (fun os => s.getInstances.1.registry.findById os id) hlist.symm)
  listed id o ho := by
    have hanswer := h.cached.getInstance h.holds.nodup id
    have hmem := hanswer.element o ho
    have hkeep : (s.getInstance id).1.getInstances.2 =
        (s.getInstance id).1.registry.instances := by
      unfold Store.getInstances Registry.getInstances
      rw [if_neg (by rw [List.isEmpty_iff]; exact List.ne_nil_of_mem hmem)]
    exact hkeep ▸ hmem

/-- A reload brings the caches to what the table holds. -/
theorem Refines.reload {table : Table} {r : Registry} {rows : List Row}
    (hholds : BeamDB.Holds table m) (hcached : r.Cached rows) (hash : Oid → Nat)
    (dirs : String → Dirs) : Refines (Store.reload ⟨table, r⟩ hash dirs) m := by
  have hload := Registry.loadRows_spec r (BeamDB.getInstances table)
  have hreload := Registry.reload_cached hload (hload.cached hcached).indexed
    (some (BeamDB.getInstances table)) hash dirs
  unfold Store.reload
  simp only
  split
  · next r heq =>
    rw [heq] at hreload
    have hfire : Registry.SameCaches r (r.fire .instancesRefreshed) :=
      ⟨rfl, fun _ => rfl, rfl, rfl⟩
    exact ⟨hholds, hreload.same hfire⟩
  · next r heq =>
    rw [heq] at hreload
    exact ⟨hholds, hreload⟩

/-- Every call does to the map what its name says. -/
theorem Refines.step (h : Refines s m) {c : Call} (hstep : s.step c = some t) :
    Refines t (c.apply m) := by
  cases c with
  | insert inst hash dirs =>
    simp only [Store.step, Option.ite_none_left_eq_some, Option.some.injEq] at hstep
    exact hstep.2 ▸ .reload (h.holds.insert inst) h.cached hash dirs
  | update inst hash dirs =>
    simp only [Store.step, Option.ite_none_left_eq_some, Option.some.injEq] at hstep
    exact hstep.2 ▸ .reload (h.holds.update inst) h.cached hash dirs
  | delete id hash dirs =>
    simp only [Store.step, Option.ite_none_left_eq_some, Option.some.injEq] at hstep
    exact hstep.2 ▸ .reload (h.holds.delete id) h.cached hash dirs
  | getInstance id =>
    simp only [Store.step, Option.ite_none_left_eq_some, Option.some.injEq] at hstep
    exact hstep.2 ▸ ⟨h.holds, (h.cached.getInstance h.holds.nodup id).cached⟩
  | getInstances =>
    simp only [Store.step, Option.ite_none_left_eq_some, Option.some.injEq] at hstep
    exact hstep.2 ▸ ⟨h.holds, h.cached.getInstances.1⟩
  | registry a =>
    simp only [Store.step, Option.ite_none_right_eq_some] at hstep
    obtain ⟨r, hr, rfl⟩ := Option.map_eq_some_iff.mp hstep.2
    exact ⟨h.holds, h.cached.same (.step hstep.1 hr)⟩
  | restart =>
    simp only [Store.step, Option.some.injEq] at hstep
    subst hstep
    exact ⟨h.holds, fun _ ho => (nomatch ho), .inl rfl, fun _ _ ho => (nomatch ho)⟩

/-- Every run of calls refines the run on the map. -/
theorem Refines.run {calls : List Call} (h : Refines s m)
    (hrun : run Store.step s calls = some t) : Refines t (calls.foldl Call.apply m) := by
  induction calls generalizing s m with
  | nil =>
    rw [run_nil, Option.some.injEq] at hrun
    exact hrun ▸ h
  | cons c calls ih =>
    obtain ⟨u, hu, hrun⟩ := run_cons_eq_some.mp hrun
    exact ih (h.step hu) hrun

/-- **The store refines a finite map.** From an empty database, after any sequence of
inserts, updates and deletes, of getter calls, of other steps of the registry and of new
processes, the getters, the database and the map that the calls describe agree.
SOURCE: BeamDB.kt:50-106, KlipperInstance.kt:232-332 -/
theorem store_refines_map {calls : List Call}
    (hrun : run step (fresh BeamDB.newTable) calls = some s) :
    s.Agrees (calls.foldl Call.apply ∅) := by
  have hstart : Refines (fresh BeamDB.newTable) ∅ :=
    ⟨BeamDB.newTable_holds, fun _ ho => (nomatch ho), .inl rfl, fun _ _ ho => (nomatch ho)⟩
  exact (hstart.run hrun).agrees

/-- Two inserts, a getter in a new process, an update, a start, and a delete. -/
def someCalls : List Call :=
  let hash : Oid → Nat := id
  let dirs : String → Dirs := fun _ => ⟨true, true⟩
  [.insert ⟨"a", "Ender", .printer, false⟩ hash dirs, .insert ⟨"b", "Voron", .moon, false⟩ hash dirs,
    .restart, .getInstance "b", .update ⟨"a", "Ender 3", .box, true⟩ hash dirs,
    .registry (.start 0 ⟨true, true⟩), .getInstances, .delete "b" hash dirs, .getInstance "b"]

/-- After these calls the getters agree with the map. -/
theorem store_refines_map_someCalls :
    ∃ s, run step (fresh BeamDB.newTable) someCalls = some s ∧
      s.Agrees (someCalls.foldl Call.apply ∅) := by
  have hsome : (run step (fresh BeamDB.newTable) someCalls).isSome := by decide +kernel
  obtain ⟨s, hrun⟩ := Option.isSome_iff_exists.mp hsome
  exact ⟨s, hrun, store_refines_map hrun⟩

end Store

end Cream.Model
