import Cream.Library.Transition
import Cream.Analysis.CoveredBindings
import Cream.Model.InstanceDeletion

/-!
# Deletion is complete

What is bound for an id is ended by the block that `stop` posts, on the main thread, while
the deletion goes on at once on another. So the directory goes away under services that are
still bound, which may make it again. `Careful` says when this cannot happen: the stop has
been carried out before the row is deleted, and nothing has parted the id's object from its
bindings before that, by a lost service, by a reload with a block of the id queued, or by a
`start` of a superseded object. In every run of careful steps the directory is removed only
when nothing is bound for the id, and afterwards nothing is bound and there is no directory
(`deletion_complete`).
-/

set_option autoImplicit false

namespace Cream.Model

open Cream.Library
open Cream.Library.Transition

/-! ## The ids of the table -/

namespace BeamDB

/-- The ids of the rows are those of the map. -/
theorem Holds.mem_ids {t : SqlTable.Table} {m : Finmap fun _ : String => Entry} (h : Holds t m)
    (i : String) : i ∈ (getInstances t).map Row.id ↔ i ∈ m := by
  rw [List.mem_map, ← Finmap.lookup_isSome, Option.isSome_iff_exists]
  constructor
  · rintro ⟨row, hrow, rfl⟩
    obtain ⟨e, he, -⟩ := (h.mem_getInstances row).mp hrow
    exact ⟨e, he⟩
  · rintro ⟨e, he⟩
    exact ⟨e.row i, (h.mem_getInstances _).mpr ⟨e, he, rfl⟩, rfl⟩

end BeamDB

namespace InstanceDeletion

variable {s t : InstanceDeletion} {i : String}

/-- The rows of a table. -/
abbrev rowsOf (t : SqlTable.Table) : List Row := BeamDB.getInstances t

/-- The steps that let the deletion of an id be complete. -/
def Careful (i : String) (s : InstanceDeletion) : Action → Prop
  | .registry a => Registry.CarefulAction i s.registry a
  | .load _ _ => s.registry.CarefulReload i (rowsOf s.table)
  | .insert inst _ _ => s.registry.CarefulReload i (rowsOf (BeamDB.insert s.table inst)) ∧
    (inst.id = i → i ∉ s.removing)
  | .update inst _ _ => s.registry.CarefulReload i (rowsOf (BeamDB.update s.table inst))
  | .databaseDelete id _ dirs =>
    s.registry.CarefulReload i (rowsOf (BeamDB.delete s.table id)) ∧
      (id = i → s.registry.NothingQueued i ∧
        s.registry.Room (rowsOf (BeamDB.delete s.table id)) dirs)
  | .delete _ | .deleteRecursively _ | .serviceFiles _ => True

instance (i : String) (s : InstanceDeletion) (a : Action) : Decidable (Careful i s a) :=
  match a with
  | .registry a => inferInstanceAs (Decidable (Registry.CarefulAction i s.registry a))
  | .load _ _ => inferInstanceAs (Decidable (s.registry.CarefulReload i (rowsOf s.table)))
  | .insert inst _ _ => inferInstanceAs (Decidable (_ ∧ (inst.id = i → i ∉ s.removing)))
  | .update inst _ _ =>
    inferInstanceAs (Decidable (s.registry.CarefulReload i (rowsOf (BeamDB.update s.table inst))))
  | .databaseDelete id _ _ => inferInstanceAs (Decidable (_ ∧ (id = i → _)))
  | .delete _ => inferInstanceAs (Decidable True)
  | .deleteRecursively _ => inferInstanceAs (Decidable True)
  | .serviceFiles _ => inferInstanceAs (Decidable True)

/-- The invariant of a careful run. -/
structure Sound (i : String) (s : InstanceDeletion) : Prop where
  covered : s.registry.Covered i
  awake : s.registry.Awake
  table : ∃ m, BeamDB.Holds s.table m
  gone : i ∈ s.deleted → s.registry.registered i = none ∧ s.registry.NothingBound i ∧
    i ∉ (rowsOf s.table).map Row.id
  removing : i ∈ s.removing → i ∈ s.deleted
  directory : i ∈ s.deleted → i ∉ s.removing → s.directory i = false

/-- What a careful reload does. -/
structure Reloaded (i : String) (s t : InstanceDeletion) (table : SqlTable.Table) : Prop where
  covered : t.registry.Covered i
  awake : t.registry.Awake
  same : t.table = table ∧ t.launched = s.launched ∧ t.deleted = s.deleted ∧
    t.removing = s.removing
  absent : i ∉ (rowsOf table).map Row.id → t.registry.registered i = none ∧
    (s.registry.NothingBound i → t.registry.NothingBound i) ∧ t.directory i = s.directory i

/-- A careful reload leaves the id covered, and knows it only from its row. -/
theorem Sound.reload (h : Sound i s) {table : SqlTable.Table} {hash : Oid → Nat}
    {dirs : String → Dirs} (hcareful : s.registry.CarefulReload i (rowsOf table))
    (hs : s.reload table hash dirs = some t) : Reloaded i s t table := by
  obtain ⟨r, hr, rfl⟩ := Option.map_eq_some_iff.mp hs
  have hawake := Registry.awake_step h.awake hr
  obtain ⟨hnodup, rfl⟩ := Registry.step_reload hr
  obtain ⟨hcovered, habsent⟩ := h.covered.reload h.awake hnodup hcareful _ hash dirs
  refine ⟨hcovered, hawake, ⟨rfl, rfl, rfl, rfl⟩, fun hout => ?_⟩
  obtain ⟨hnone, hbound⟩ := habsent hout
  refine ⟨hnone, hbound, ?_⟩
  have hany : ((rowsOf table).any fun row => row.id = i && row.autostart && (dirs i).directory &&
      decide (∀ w ∈ (s.registry.instanceMapGet i).2, s.registry.stateOf w = .idle)) = false := by
    refine List.any_eq_false.mpr fun row hrow htrue => ?_
    simp only [Bool.and_eq_true, decide_eq_true_eq] at htrue
    exact hout (htrue.1.1.1 ▸ List.mem_map_of_mem hrow)
  show (s.directory i || _) = s.directory i
  rw [hany, Bool.or_false]

/-- A careful reload of a table that has lost no track of the deleted ids. -/
theorem Sound.reloaded (h : Sound i s) {table : SqlTable.Table} (hr : Reloaded i s t table)
    (htable : ∃ m, BeamDB.Holds table m)
    (habsent : i ∈ s.deleted → i ∉ (rowsOf table).map Row.id) : Sound i t := by
  obtain ⟨htab, -, hdeleted, hremoving⟩ := hr.same
  refine ⟨hr.covered, hr.awake, htab ▸ htable, fun hi => ?_, fun hi => ?_, fun hi hno => ?_⟩
  · rw [hdeleted] at hi
    obtain ⟨hnone, hbound, -⟩ := hr.absent (habsent hi)
    exact ⟨hnone, hbound (h.gone hi).2.1, htab ▸ habsent hi⟩
  · rw [hremoving] at hi
    exact hdeleted ▸ h.removing hi
  · rw [hdeleted] at hi
    rw [hremoving] at hno
    exact (hr.absent (habsent hi)).2.2.trans (h.directory hi hno)

/-- What the removal takes in is the one instance. -/
theorem mem_outcome_iff {l : List String} {id : String} (hid : id ≠ i) (r : Outcome) :
    (i ∈ match r with
      | .returned => id :: l
      | .threw => l) ↔ i ∈ l := by
  cases r with
  | returned => exact List.mem_cons.trans (or_iff_right (Ne.symm hid))
  | threw => rfl

/-- A deleted id has no row. -/
theorem Sound.absent (h : Sound i s) {m : Finmap fun _ : String => Entry}
    (hm : BeamDB.Holds s.table m) (hi : i ∈ s.deleted) : i ∉ m :=
  fun hmem => (h.gone hi).2.2 ((hm.mem_ids i).mpr hmem)

/-- The registry takes a step of its own. -/
theorem Sound.registry (h : Sound i s) {a : Registry.Action} (hg : Careful i s (.registry a))
    (hs : InstanceDeletion.step s (.registry a) = some t) : Sound i t := by
  simp only [InstanceDeletion.step, Option.ite_none_right_eq_some] at hs
  obtain ⟨hreload, hs⟩ := hs
  obtain ⟨r, hr, rfl⟩ := Option.map_eq_some_iff.mp hs
  obtain ⟨hcovered, hunknown⟩ := h.covered.step hreload hg hr
  refine ⟨hcovered, Registry.awake_step h.awake hr, h.table, fun hi => ?_, h.removing,
    fun hi hno => ?_⟩
  · obtain ⟨hnone, hbound, hrows⟩ := h.gone hi
    obtain ⟨hnone', hbound'⟩ := hunknown hnone
    exact ⟨hnone', hbound' hbound, hrows⟩
  · show s.madeBy a i = false
    cases a with
    | start x dirs =>
      unfold madeBy
      simp only
      split
      · next hmade =>
        have hne : i ≠ s.registry.idOf x := fun heq => by
          have hreg := (hg heq.symm hmade.1).1
          rw [(h.gone hi).1] at hreg
          cases hreg
        rw [Function.update_of_ne hne]
        exact h.directory hi hno
      · exact h.directory hi hno
    | stop _ => exact h.directory hi hno
    | onInstancesLoadedFromDB _ _ _ _ => exact h.directory hi hno
    | runPosted => exact h.directory hi hno
    | onServiceConnected _ => exact h.directory hi hno
    | onServiceDisconnected _ => exact h.directory hi hno

/-- A row is inserted. Inserting the id again makes it count as deleted no more. -/
theorem Sound.insert (h : Sound i s) {inst : Instance} {hash : Oid → Nat} {dirs : String → Dirs}
    (hg : Careful i s (.insert inst hash dirs))
    (hs : InstanceDeletion.step s (.insert inst hash dirs) = some t) : Sound i t := by
  obtain ⟨m, hm⟩ := h.table
  obtain ⟨u, hu, rfl⟩ := Option.map_eq_some_iff.mp hs
  have hholds := hm.insert inst
  have hr := h.reload hg.1 hu
  by_cases hid : inst.id = i
  · -- the id is inserted again: it counts as deleted no more
    have hnot : i ∉ u.deleted.filter fun id => id ≠ inst.id := by
      intro hi
      simpa [hid] using (List.mem_filter.mp hi).2
    have hremoving : i ∉ u.removing := by
      rw [hr.same.2.2.2]
      exact hg.2 hid
    exact ⟨hr.covered, hr.awake, ⟨_, hr.same.1 ▸ hholds⟩, fun hi => absurd hi hnot,
      fun hi => absurd hi hremoving, fun hi => absurd hi hnot⟩
  · have hkept : i ∈ (u.deleted.filter fun id => id ≠ inst.id) ↔ i ∈ u.deleted := by
      simp [List.mem_filter, Ne.symm hid]
    have hsound := h.reloaded hr ⟨_, hholds⟩ fun hi hmem => by
      rw [hholds.mem_ids, Finmap.mem_insert] at hmem
      exact hmem.elim (fun heq => hid heq.symm) (h.absent hm hi)
    exact ⟨hsound.covered, hsound.awake, hsound.table, fun hi => hsound.gone (hkept.mp hi),
      fun hi => hkept.mpr (hsound.removing hi), fun hi => hsound.directory (hkept.mp hi)⟩

/-- The row of an id is deleted, and the table reloaded. -/
theorem Sound.databaseDelete (h : Sound i s) {id : String} {hash : Oid → Nat}
    {dirs : String → Dirs} (hg : Careful i s (.databaseDelete id hash dirs))
    (hs : InstanceDeletion.step s (.databaseDelete id hash dirs) = some t) : Sound i t := by
  obtain ⟨m, hm⟩ := h.table
  simp only [InstanceDeletion.step, Option.ite_none_right_eq_some] at hs
  obtain ⟨-, hs⟩ := hs
  obtain ⟨u, hu, rfl⟩ := Option.map_eq_some_iff.mp hs
  have hholds := hm.delete id
  have hr := h.reload hg.1 hu
  have hout : id = i → i ∉ (rowsOf (BeamDB.delete s.table id)).map Row.id := by
    rintro rfl hmem
    rw [hholds.mem_ids, Finmap.mem_erase] at hmem
    exact hmem.1 rfl
  by_cases hid : id = i
  · subst hid
    obtain ⟨hquiet, hroom⟩ := hg.2 rfl
    obtain ⟨hnone, hbound, -⟩ := hr.absent (hout rfl)
    have hno : s.registry.NothingBound id := by
      refine h.covered.nothingBound hquiet fun w hw => ?_
      have hknown : (s.registry.registered id).isSome := Option.isSome_iff_exists.mpr ⟨w, hw⟩
      exact (hg.1 (.inr hknown)).2 (hout rfl) w hw
    -- the reload has room, so the directory is next
    obtain ⟨r, hstep, -⟩ := Option.map_eq_some_iff.mp hu
    have hreturned : s.reloadOutcome (BeamDB.delete s.table id) hash dirs = .returned :=
      (Registry.reload_starts h.awake (Registry.loadRows_spec s.registry _)
        (Registry.step_reload hstep).1 _ hash hroom).1
    simp only [hreturned]
    exact ⟨hr.covered, hr.awake, ⟨_, hr.same.1 ▸ hholds⟩,
      fun _ => ⟨hnone, hbound hno, hr.same.1 ▸ hout rfl⟩, fun _ => List.mem_cons_self,
      fun _ hnot => absurd List.mem_cons_self hnot⟩
  · have hsound := h.reloaded hr ⟨_, hholds⟩ fun hi hmem => by
      rw [hholds.mem_ids, Finmap.mem_erase] at hmem
      exact h.absent hm hi hmem.2
    have hdeleted : i ∈ id :: s.deleted ↔ i ∈ u.deleted := by
      rw [hr.same.2.2.1, List.mem_cons]
      exact or_iff_right (Ne.symm hid)
    have hkept : i ∈ s.removing ↔ i ∈ u.removing := by rw [hr.same.2.2.2]
    have hremoving := (mem_outcome_iff (l := s.removing) hid
      (s.reloadOutcome (BeamDB.delete s.table id) hash dirs)).trans hkept
    exact ⟨hsound.covered, hsound.awake, hsound.table, fun hi => hsound.gone (hdeleted.mp hi),
      fun hi => hdeleted.mpr (hsound.removing (hremoving.mp hi)),
      fun hi hno => hsound.directory (hdeleted.mp hi) (hremoving.not.mp hno)⟩

/-- **One careful step.** -/
theorem Sound.step (h : Sound i s) {a : Action} (hg : Careful i s a)
    (hs : InstanceDeletion.step s a = some t) : Sound i t := by
  obtain ⟨m, hm⟩ := h.table
  cases a with
  | registry a => exact h.registry hg hs
  | load hash dirs => exact h.reloaded (h.reload hg hs) h.table fun hi => (h.gone hi).2.2
  | insert inst hash dirs => exact h.insert hg hs
  | update inst hash dirs =>
    have hholds := hm.update inst
    refine h.reloaded (h.reload hg hs) ⟨_, hholds⟩ fun hi hmem => ?_
    rw [hholds.mem_ids] at hmem
    split at hmem
    · next hin =>
      rcases Finmap.mem_insert.mp hmem with heq | hmem
      · exact h.absent hm hi (heq ▸ hin)
      · exact h.absent hm hi hmem
    · exact h.absent hm hi hmem
  | delete o =>
    obtain ⟨r, hr, rfl⟩ := Option.map_eq_some_iff.mp hs
    have hnoreload : Store.NoReload (.stop o) := trivial
    obtain ⟨hcovered, hunknown⟩ := h.covered.step hnoreload trivial hr
    refine ⟨hcovered, Registry.awake_step h.awake hr, h.table, fun hi => ?_, h.removing,
      h.directory⟩
    obtain ⟨hnone, hbound, hrows⟩ := h.gone hi
    obtain ⟨hnone', hbound'⟩ := hunknown hnone
    exact ⟨hnone', hbound' hbound, hrows⟩
  | databaseDelete id hash dirs => exact h.databaseDelete hg hs
  | deleteRecursively id =>
    simp only [InstanceDeletion.step, Option.ite_none_right_eq_some, Option.some.injEq] at hs
    obtain ⟨-, rfl⟩ := hs
    refine ⟨h.covered, h.awake, h.table, h.gone, fun hi => h.removing (List.mem_of_mem_erase hi),
      fun hi hno => ?_⟩
    by_cases hid : i = id
    · subst hid
      exact Function.update_self _ _ _
    · rw [List.mem_erase_of_ne hid] at hno
      exact (Function.update_of_ne hid _ _).trans (h.directory hi hno)
  | serviceFiles c =>
    obtain ⟨b, hb, rfl⟩ := Option.map_eq_some_iff.mp hs
    refine ⟨h.covered, h.awake, h.table, h.gone, h.removing, fun hi hno => ?_⟩
    have hne : i ≠ s.registry.idOf b.owner := fun heq =>
      (h.gone hi).2.1 b (List.mem_of_find?_eq_some hb) heq.symm
    exact (Function.update_of_ne hne _ _).trans (h.directory hi hno)

/-- The directory of the id can be removed only when nothing is bound for it. -/
def RemovedUnbound (s : InstanceDeletion) (i : String) : Prop :=
  ∀ t, step s (.deleteRecursively i) = some t → s.registry.NothingBound i

/-- When the id has been deleted and its directory removed, then with the handler drained
nothing is bound for it and there is no directory. -/
def GoneForGood (s : InstanceDeletion) (i : String) : Prop :=
  i ∈ s.deleted → i ∉ s.removing → s.registry.queue = [] →
    s.registry.NothingBound i ∧ s.directory i = false

/-- **Deletion is complete** in every run of careful steps: the directory of an instance is
removed only when nothing is bound for its id, and once it is removed nothing is bound and
the directory does not exist.
SOURCE: MainViewModel.kt:69-74, BeamDB.kt:101-106, KlipperInstance.kt:135-194 -/
theorem deletion_complete {acts : List Action}
    (hrun : run (restrict step (Careful i)) init acts = some s) :
    s.RemovedUnbound i ∧ s.GoneForGood i := by
  have hinit : Sound i init := by
    refine ⟨⟨⟨⟨nofun, nofun⟩, nofun, nofun⟩, nofun, nofun, nofun⟩, Registry.awake_empty,
      ⟨∅, BeamDB.newTable_holds⟩, nofun, nofun, nofun⟩
  have hsound : Sound i s :=
    run_restrict_invariant (fun _ _ _ h hg hs => h.step hg hs) hinit hrun
  refine ⟨fun t ht => ?_, fun hdeleted hremoved _ => ?_⟩
  · simp only [step, Option.ite_none_right_eq_some] at ht
    exact (hsound.gone (hsound.removing ht.1)).2.1
  · exact ⟨(hsound.gone hdeleted).2.1, hsound.directory hdeleted hremoved⟩

/-- Nothing is missing on disk, and the keys are visited in the order of their numbers. -/
def noOrder : Oid → Nat := id

def allDirs : String → Dirs := fun _ => ⟨true, true⟩

/-- A printer is added and brought up. -/
def comingUp : List Action :=
  [.insert ⟨"A", "a", .printer, false⟩ noOrder allDirs, .registry .runPosted,
    .registry (.start 0 ⟨true, true⟩), .registry .runPosted, .registry (.onServiceConnected 0),
    .registry (.onServiceConnected 1), .registry .runPosted]

/-- It is deleted when its stop has been carried out. -/
def deletedAtRest : List Action :=
  comingUp ++ [.serviceFiles 0, .registry (.stop 0), .registry .runPosted, .registry .runPosted,
    .delete 0, .databaseDelete "A" noOrder allDirs, .deleteRecursively "A", .registry .runPosted]

/-- A printer at rest is deleted. -/
theorem deletion_complete_at_rest :
    ∃ s, run (restrict step (Careful "A")) init deletedAtRest = some s ∧ "A" ∈ s.deleted ∧
      s.registry.queue = [] ∧ s.RemovedUnbound "A" ∧ s.GoneForGood "A" := by
  have hrun : (run (restrict step (Careful "A")) init deletedAtRest).any (fun s =>
      "A" ∈ s.deleted ∧ s.registry.queue = []) = true := by
    decide +kernel
  obtain ⟨s, hs, hlast⟩ := (Option.any_eq_true _ _).mp hrun
  obtain ⟨hdeleted, hqueue⟩ := of_decide_eq_true hlast
  exact ⟨s, hs, hdeleted, hqueue, deletion_complete hs⟩

/-- The running printer is deleted at once; a service that is still bound writes a file after
the directory has been removed, and then the posted blocks run. -/
def deletedRunning : List Action :=
  comingUp ++ [.delete 0, .databaseDelete "A" noOrder allDirs]

def recreated : List Action :=
  deletedRunning ++ [.deleteRecursively "A", .serviceFiles 0, .registry .runPosted,
    .registry .runPosted, .registry .runPosted]

/-- Deleting a running printer removes the directory under its bound services, and what
they write stays behind.
SOURCE: MainViewModel.kt:69-74 -/
theorem deletion_not_complete :
    (¬∀ acts s i, run step init acts = some s → s.RemovedUnbound i) ∧
      ¬∀ acts s i, run step init acts = some s → s.GoneForGood i := by
  constructor
  · intro h
    have hrun : (run step init deletedRunning).any (fun s =>
        (step s (.deleteRecursively "A")).isSome ∧ ¬s.registry.NothingBound "A") = true := by
      decide +kernel
    obtain ⟨s, hs, hlast⟩ := (Option.any_eq_true _ _).mp hrun
    obtain ⟨hsome, hbound⟩ := of_decide_eq_true hlast
    obtain ⟨t, ht⟩ := Option.isSome_iff_exists.mp hsome
    exact hbound (h _ s "A" hs t ht)
  · intro h
    have hrun : (run step init recreated).any (fun s => "A" ∈ s.deleted ∧ "A" ∉ s.removing ∧
        s.registry.queue = [] ∧ s.directory "A" = true) = true := by
      decide +kernel
    obtain ⟨s, hs, hlast⟩ := (Option.any_eq_true _ _).mp hrun
    obtain ⟨hdeleted, hremoved, hqueue, hdirectory⟩ := of_decide_eq_true hlast
    have hgone := (h _ s "A" hs hdeleted hremoved hqueue).2
    cases hdirectory.symm.trans hgone

end InstanceDeletion

end Cream.Model
