import Cream.Analysis.Coherence

/-!
# Reload coherence

`onInstancesLoadedFromDB` copies an object's fields into a new object, while the posted
blocks and the callbacks go on with the old one. So a reload that keeps a printer's row is
invisible only while nothing is posted about the printer and both its services are up, or
while it is idle. `Tidy` adds this to the steps of `Orderly`, with what else parts the
registered object from its bindings: a lost service, a superseded object that is started
or stopped, and an object that starts when the ten slots are used up. In every run of
orderly and tidy steps the registered objects tell the truth whenever the queue is empty
(`reload_coherent`).
-/

set_option autoImplicit false

namespace Cream.Model

open Cream.Library.Lease Cream.Library.Transition

namespace Registry

variable {s t : Registry} {i : String} {o : Oid}

/-! ## Tidy steps -/

/-- The rows whose objects a reload starts, and that take a slot. -/
def Autostarts (s : Registry) (dirs : String → Dirs) (row : Row) : Prop :=
  row.autostart = true ∧ (∀ w ∈ s.registered row.id, s.stateOf w = .idle) ∧
    (dirs row.id).directory = true ∧ (dirs row.id).publicDirectory = true

instance (s : Registry) (dirs : String → Dirs) (row : Row) : Decidable (s.Autostarts dirs row) :=
  inferInstanceAs (Decidable (_ ∧ _))

/-- A reload that keeps only printers that are idle, or up with nothing posted about them,
and for whose autostarts there are slots left. -/
def TidyReload (s : Registry) (rows : List Row) (dirs : String → Dirs) : Prop :=
  (∀ row ∈ rows, ∀ w ∈ s.registered row.id, s.stateOf w ≠ .idle →
    s.stateOf w = .running ∧ ∀ b ∈ s.work, ∀ o ∈ b.object?, s.idOf o ≠ row.id) ∧
      s.slots.keys.countP (fun y => s.idOf y ∈ rows.map Row.id) +
        rows.countP (fun row => s.Autostarts dirs row) ≤ SLOTS_COUNT

instance (s : Registry) (rows : List Row) (dirs : String → Dirs) :
    Decidable (s.TidyReload rows dirs) :=
  inferInstanceAs (Decidable (_ ∧ _))

/-- The steps that keep the registered objects and their bindings together. -/
def Tidy (s : Registry) : Action → Prop
  | .start o dirs => s.stateOf o = .idle → s.registered (s.idOf o) = some o ∧
    (dirs.directory = true ∧ dirs.publicDirectory = true → s.slots.keys.length < SLOTS_COUNT)
  | .stop o => s.stateOf o = .running ∨ s.stateOf o = .starting →
    ∀ w ∈ s.registered (s.idOf o), w = o
  | .onInstancesLoadedFromDB rows _ _ dirs => s.TidyReload rows dirs
  | .runPosted => True
  | .onServiceConnected _ => True
  | .onServiceDisconnected c => ∀ b ∈ s.bindingOf c, s.StopPending (s.idOf b.owner)

instance (s : Registry) (a : Action) : Decidable (s.Tidy a) :=
  match a with
  | .start _ _ => inferInstanceAs (Decidable (_ → _))
  | .stop _ => inferInstanceAs (Decidable (_ → _))
  | .onInstancesLoadedFromDB rows _ _ dirs => inferInstanceAs (Decidable (s.TidyReload rows dirs))
  | .runPosted => inferInstanceAs (Decidable True)
  | .onServiceConnected _ => inferInstanceAs (Decidable True)
  | .onServiceDisconnected c =>
    inferInstanceAs (Decidable (∀ b ∈ s.bindingOf c, s.StopPending (s.idOf b.owner)))

/-- The steps under which the registered objects tell the truth. -/
def Truthful (s : Registry) (a : Action) : Prop := s.Orderly a ∧ s.Tidy a

instance (s : Registry) (a : Action) : Decidable (s.Truthful a) :=
  inferInstanceAs (Decidable (_ ∧ _))

/-! ## What is bound stays booked -/

/-- What is bound for an id, or about to be, with no unbind block queued, is booked under a
key that is starting or running.
SOURCE: KlipperInstance.kt:91, 188-193 -/
theorem SlotInv.key_of_bound (h : SlotInv s) (hno : ¬s.StopPending i)
    (hbound : (∃ b ∈ s.bindings, s.idOf b.owner = i) ∨
      ∃ b ∈ s.work, ∃ o ∈ b.bound?, s.idOf o = i) :
    ∃ y k, s.slots.lookup y = some k ∧ s.idOf y = i ∧
      (s.stateOf y = .running ∨ s.stateOf y = .starting) := by
  have hrelease : Op.release i ∉ s.ops := by
    intro hmem
    rcases mem_ops.mp hmem with ⟨o, n, -, heq⟩ | ⟨o, ho, heq⟩
    · cases heq
    · cases heq
      exact hno (stopPending_of_unbind ho)
  have hleased : ∃ k, s.Leased i k := by
    rcases hbound with ⟨b, hb, rfl⟩ | ⟨b, hb, o, ho, rfl⟩
    · exact ⟨b.slot, mem_after_of_mem hrelease ⟨b, hb, rfl⟩⟩
    · cases b with
      | bind x n =>
        cases ho
        exact ⟨_, mem_after_of_acquire hrelease (mem_ops.mpr (.inl ⟨_, n, hb, rfl⟩))⟩
      | unbind x => cases ho
      | stopServers => cases ho
      | bindServers => cases ho
  obtain ⟨k, hk⟩ := hleased
  obtain ⟨y, hy, hkey⟩ := h.booked i k hk
  refine ⟨y, k, hkey, hy, ?_⟩
  have hactive := h.key_active y k hkey
  cases hst : s.stateOf y with
  | idle => exact absurd hst hactive
  | starting => exact .inr rfl
  | running => exact .inl rfl
  | stopping => exact absurd (hy ▸ hk) (h.stopping y k hkey hst k)

/-- An id that is no key settles. -/
theorem SlotInv.settling (h : SlotInv s) (hno : ∀ y k, s.slots.lookup y = some k → s.idOf y ≠ i) :
    s.Settling i := by
  intro hbound
  by_contra hpending
  obtain ⟨y, k, hkey, hid, -⟩ := h.key_of_bound hpending hbound
  exact hno y k hkey hid

/-! ## The autostart loop -/

/-- `start` takes at most one slot, and none when a directory is missing. -/
theorem start_keys (o : Oid) (dirs : Dirs) : (s.start o dirs).1.slots.keys.length ≤
    s.slots.keys.length +
      if dirs.directory = true ∧ dirs.publicDirectory = true then 1 else 0 := by
  rcases start_cases s o dirs with ⟨-, heq⟩ | ⟨-, -, heq⟩ | ⟨-, -, -, -, heq⟩ |
    ⟨k, -, hdir, hpub, -, heq⟩
  · rw [heq]
    exact Nat.le_add_right _ _
  · rw [heq, stop_slots]
    exact Nat.le_add_right _ _
  · rw [heq]
    exact Nat.le_add_right _ _
  · rw [heq, if_pos ⟨hdir, hpub⟩]
    have hinsert : (s.slots.insert o k).keys.length ≤ s.slots.keys.length + 1 := by
      rw [AList.keys_insert, List.length_cons]
      exact Nat.succ_le_succ (List.length_erase_le)
    exact hinsert

/-- What the autostart loop has to find of the objects still to come. -/
structure ReadyToStart (s : Registry) (dirs : String → Dirs) (rest : List Oid) : Prop where
  live : ∀ o ∈ rest, o < s.created
  registered : ∀ o ∈ rest, s.registered (s.idOf o) = some o
  startable : ∀ o ∈ rest, s.Startable o
  nodup : (rest.map s.idOf).Nodup
  slots : s.slots.keys.length + rest.countP (fun o => (s.heap o).autostart = true ∧
    s.stateOf o = .idle ∧ (dirs (s.idOf o)).directory = true ∧
      (dirs (s.idOf o)).publicDirectory = true) ≤ SLOTS_COUNT

/-- The objects after the next one are as ready without it. -/
theorem ReadyToStart.tail {dirs : String → Dirs} {inst : Oid} {rest : List Oid}
    (hr : s.ReadyToStart dirs (inst :: rest)) : s.ReadyToStart dirs rest := by
  have hnodup := hr.nodup
  have hslots := hr.slots
  rw [List.map_cons, List.nodup_cons] at hnodup
  rw [List.countP_cons] at hslots
  exact ⟨fun o ho => hr.live o (List.mem_cons_of_mem _ ho),
    fun o ho => hr.registered o (List.mem_cons_of_mem _ ho),
    fun o ho => hr.startable o (List.mem_cons_of_mem _ ho), hnodup.2, by lia⟩

/-- The next object is started, and those after it are as ready as before.
SOURCE: KlipperInstance.kt:284-290 -/
theorem ReadyToStart.next {dirs : String → Dirs} {inst : Oid} {rest : List Oid}
    (hr : s.ReadyToStart dirs (inst :: rest)) (h : Coherent s)
    (hauto : (s.heap inst).autostart ∧ s.stateOf inst = .idle) :
    ∃ t, s.start inst (dirs (s.idOf inst)) = (t, .returned) ∧ Coherent t ∧
      t.ReadyToStart dirs rest := by
  have hlive := hr.live inst List.mem_cons_self
  have hnodup := hr.nodup
  rw [List.map_cons, List.nodup_cons] at hnodup
  have hslots := hr.slots
  rw [List.countP_cons] at hslots
  have hl := Local.start (s := s) inst (dirs (s.idOf inst))
  have hkeys := start_keys (s := s) inst (dirs (s.idOf inst))
  obtain ⟨hcoherent, hreturned⟩ := h.start hlive (dirs (s.idOf inst))
    (hr.startable inst List.mem_cons_self hauto.1)
    (fun _ => hr.registered inst List.mem_cons_self)
    fun hidle hdir hpub => pickSlot_ne_none (by
      simp only [hauto.1, hidle, hdir, hpub, and_self, decide_true, if_true] at hslots
      lia)
  rcases hrun : s.start inst (dirs (s.idOf inst)) with ⟨t, outcome⟩
  rw [hrun] at hl hkeys hcoherent hreturned
  subst hreturned
  have hother : ∀ o ∈ rest, s.idOf o ∉ ({s.idOf inst} : Set String) := fun o ho hsame =>
    hnodup.1 (List.mem_map.mpr ⟨o, ho, hsame⟩)
  have hcount : rest.countP (fun o => (t.heap o).autostart = true ∧ t.stateOf o = .idle ∧
      (dirs (t.idOf o)).directory = true ∧ (dirs (t.idOf o)).publicDirectory = true) =
      rest.countP (fun o => (s.heap o).autostart = true ∧ s.stateOf o = .idle ∧
        (dirs (s.idOf o)).directory = true ∧ (dirs (s.idOf o)).publicDirectory = true) := by
    refine List.countP_congr fun o ho => ?_
    rw [hl.id, stateOf, hl.heap o (hother o ho), stateOf]
  refine ⟨t, rfl, hcoherent, fun o ho => ?_, fun o ho => ?_, fun o ho => ?_, ?_, ?_⟩
  · rw [hl.created]
    exact hr.live o (List.mem_cons_of_mem _ ho)
  · rw [hl.id, hl.registered]
    exact hr.registered o (List.mem_cons_of_mem _ ho)
  · exact (hr.startable o (List.mem_cons_of_mem _ ho)).apart h.slots hl.apart
      (hr.live o (List.mem_cons_of_mem _ ho)) (hother o ho)
  · rw [List.map_congr_left fun o _ => hl.id o]
    exact hnodup.2
  · rw [hcount]
    simp only [hauto.1, hauto.2, true_and, decide_eq_true_eq] at hslots
    simp only at hkeys
    lia

/-- **The autostart loop** starts registered objects, while there are slots.
SOURCE: KlipperInstance.kt:284-290 -/
theorem Coherent.autostartAll (dirs : String → Dirs) (rest : List Oid) (h : Coherent s)
    (hr : s.ReadyToStart dirs rest) : Coherent (autostartAll dirs s rest).1 := by
  induction rest generalizing s with
  | nil => exact h
  | cons inst rest ih =>
    unfold Registry.autostartAll
    split
    · next hauto =>
      obtain ⟨t, hrun, hcoherent, hready⟩ := hr.next h hauto
      rw [hrun]
      exact ih hcoherent hready
    · exact ih h hr.tail

/-! ## The reload -/

/-- The queue and the bindings of an id agree with what they were when its objects were
loaded. -/
theorem Loaded.agree {rows : List Row} {loaded : List Oid} (hload : Loaded s rows t loaded)
    (hi : Indexed s) (j : String) : Agree j s t := by
  have hwork : t.work = s.work := (hload.looked hi "").work
  have hbind : t.bindings = s.bindings := by rw [hload.eq]
  exact ⟨fun x hx => by rw [idOf, hload.heap x hx, idOf], fun b hb _ _ _ => hwork ▸ hb,
    fun b hb _ _ _ => hwork ▸ hb, fun b hb _ => hbind ▸ hb, fun b hb _ => hbind ▸ hb⟩

/-- Loading rows keeps the registry coherent.
SOURCE: BeamDB.kt:48-72 -/
theorem Coherent.loaded (h : Coherent s) {rows : List Row} {loaded : List Oid}
    (hload : Loaded s rows t loaded) : Coherent t := by
  have hl := hload.looked h.indexed ""
  have hq := Quiet.looked h.slots hl
  have hagree := hload.agree h.indexed
  refine ⟨h.slots.quiet hq, hl.indexed h.indexed,
    h.conns.mono h.slots.live_bindings hq.id (.looked hl) (by rw [hload.eq])
      (by rw [hload.eq]), fun i o ho => ?_, fun i hi => ?_⟩
  · rw [hload.registered h.indexed] at ho
    obtain ⟨hlt, rfl⟩ := h.indexed.registered ho
    exact (h.steady _ o ho).agree h.slots hlt (hagree _) (hload.heap o hlt)
  · rw [hload.registered h.indexed] at hi
    exact (hagree i).settling h.slots (h.settling i hi)

/-- What a reload is tidy about does not change when the rows are loaded. -/
theorem TidyReload.loaded {rows : List Row} {loaded : List Oid} {dirs : String → Dirs}
    (hg : s.TidyReload rows dirs) (h : SlotInv s) (hi : Indexed s)
    (hload : Loaded s rows t loaded) : t.TidyReload rows dirs := by
  have hreg : ∀ j, t.registered j = s.registered j := fun j => hload.registered hi j
  have hst : ∀ j, ∀ w ∈ s.registered j, t.stateOf w = s.stateOf w := fun j w hw => by
    rw [stateOf, hload.heap w (hi.registered hw).1, stateOf]
  have hid : ∀ x < s.created, t.idOf x = s.idOf x := fun x hx => by
    rw [idOf, hload.heap x hx, idOf]
  have hwork : t.work = s.work := (hload.looked hi "").work
  have hslots : t.slots = s.slots := by rw [hload.eq]
  refine ⟨fun row hrow w hw hactive => ?_, ?_⟩
  · rw [hreg] at hw
    rw [hst _ w hw] at hactive ⊢
    obtain ⟨hrun, hquiet⟩ := hg.1 row hrow w hw hactive
    refine ⟨hrun, fun b hb o ho => ?_⟩
    rw [hwork] at hb
    rw [hid o (h.live_work b hb o ho)]
    exact hquiet b hb o ho
  · have hkeys : t.slots.keys.countP (fun y => t.idOf y ∈ rows.map Row.id) =
        s.slots.keys.countP (fun y => s.idOf y ∈ rows.map Row.id) := by
      rw [hslots]
      refine List.countP_congr fun y hy => ?_
      obtain ⟨k, hk⟩ := (mem_keys_iff_lookup y).mp hy
      rw [hid y (h.live_key y k hk)]
    have hrows : rows.countP (fun row => t.Autostarts dirs row) =
        rows.countP (fun row => s.Autostarts dirs row) := by
      refine List.countP_congr fun row _ => ?_
      have hall : (∀ w ∈ s.registered row.id, t.stateOf w = .idle) ↔
          ∀ w ∈ s.registered row.id, s.stateOf w = .idle :=
        forall₂_congr fun w hw => by rw [hst _ w hw]
      rw [decide_eq_true_iff, decide_eq_true_iff]
      unfold Autostarts
      rw [hreg, hall]
    rw [hkeys, hrows]
    exact hg.2

/-- After the lists are replaced the loaded objects are the registered ones. -/
theorem registered_refresh (loaded : List Oid) (j : String) :
    (s.refresh loaded).registered j = s.findById loaded j := by
  rw [registered_eq]
  rfl

/-- Up to the autostarts a reload leaves the queue and the bindings of the ids it keeps. -/
theorem Staged.agree {loaded : List Oid} {s₁ s₂ : Registry} (hst : Staged s loaded s₁ s₂)
    {j : String} (hj : j ∈ loaded.map s.idOf) : Agree j s (s₂.refresh loaded) := by
  have hbind : s₂.bindings = s.bindings := hst.apart₂.bindings.trans hst.apart₁.bindings
  refine ⟨fun x hx => hst.id hx, fun b hb o ho hid => ?_, fun b hb _ _ _ => ?_,
    fun b hb _ => hbind ▸ hb, fun b hb _ => (hbind ▸ hb : b ∈ s₂.bindings)⟩
  · rw [work_refresh] at hb
    rw [← hst.work₁]
    refine (hst.apart₂.work b hb).resolve_right ?_
    rintro ⟨x, hx, hmiss⟩
    cases Option.mem_unique ho hx
    exact hmiss ((hid : s₂.idOf o = j) ▸ hj)
  · rw [work_refresh]
    exact hst.apart₂.kept b (hst.work₁ ▸ hb)

/-- **The registry after a tidy reload**, before the autostarts: each new object is as
steady as the one it replaces, or at rest.
SOURCE: KlipperInstance.kt:249-283 -/
theorem Coherent.refreshed (h : Coherent s) {loaded : List Oid} {s₁ s₂ : Registry}
    (hst : Staged s loaded s₁ s₂) (hw : ∀ o ∈ loaded, s.Awaiting o)
    (hunbound : ∀ o ∈ loaded, ∀ b ∈ s.bindings, b.owner ≠ o)
    (htidy : ∀ o ∈ loaded, ∀ w ∈ s.registered (s.idOf o), s.stateOf w ≠ .idle →
      s.stateOf w = .running ∧ ∀ b ∈ s.work, ∀ x ∈ b.object?, s.idOf x ≠ s.idOf o) :
    Coherent (s₂.refresh loaded) := by
  have hlive : ∀ o ∈ loaded, o < s.created := fun o ho => (hw o ho).fresh.live
  have hwork := work_refresh (s := s₂) loaded
  have hbind : s₂.bindings = s.bindings := hst.apart₂.bindings.trans hst.apart₁.bindings
  have hinv : SlotInv (s₂.refresh loaded) :=
    hst.inv₂.quiet (Quiet.of_eq hst.inv₂ rfl rfl (fun _ => rfl) hwork rfl)
  have hnext : s₂.nextConn = s.nextConn := hst.apart₂.nextConn.trans hst.apart₁.nextConn
  have hlinks : LinksFrom s (s₂.refresh loaded) := hst.links
  refine ⟨hinv, ⟨fun o ho => (hlive o ho).trans_le hst.created, fun i o ho => by cases ho⟩,
    h.conns.mono h.slots.live_bindings (fun x hx => hst.id hx) hlinks
      (by rw [show (s₂.refresh loaded).bindings = s.bindings from hbind]) (le_of_eq hnext.symm),
    fun i o ho => ?_, fun i hi => ?_⟩
  · rw [registered_refresh] at ho
    obtain ⟨hmem, -⟩ := findById_some ho
    have hagree := hst.agree (List.mem_map_of_mem hmem)
    have hheap : (s₂.refresh loaded).heap o = s₁.heap o := hst.heap (hlive o hmem) hmem
    have hstate : (s₂.refresh loaded).stateOf o = s₁.stateOf o := by rw [stateOf, hheap, stateOf]
    have hid : (s₂.refresh loaded).idOf o = s.idOf o := hst.id (hlive o hmem)
    have hrest : s.Settling (s.idOf o) → (∀ svc, ((s₁.heap o).link svc).connected = false) →
        (s₂.refresh loaded).AtRest o := by
      intro hsettling hdown
      refine ⟨?_, fun b hb => hunbound o hmem b (hbind ▸ hb), fun b hb ho => ?_, ?_⟩
      · rw [hid]
        exact hagree.settling h.slots hsettling
      · have hb := hagree.work b hb o (object?_of_bound? ho) hid
        exact (hw o hmem).fresh.work b hb (object?_of_bound? ho)
      · rw [hheap]
        exact hdown
    rcases (hst.copied o hmem).2 with ⟨w, hreg, hcopy, hlink⟩ | ⟨hnone, hidle, hlink⟩
    · have hwi := (h.indexed.registered hreg).2
      have hsteady := h.steady _ w hreg
      by_cases hidle : s.stateOf w = .idle
      · have hwrest := hsteady.idle hidle
        refine .of_idle (hstate.trans (hcopy.trans hidle)) (hrest (hwi ▸ hwrest.settling) ?_)
        rw [hlink]
        exact hwrest.down
      · -- it runs, with nothing posted about its id
        obtain ⟨hrun, hquiet⟩ := htidy o hmem w hreg hidle
        have hup := hsteady.running hrun
        have hboth := hup.up.resolve_left fun hunbind => hquiet _ hunbind w rfl hwi
        rw [hwi] at hboth
        refine .of_running (hstate.trans (hcopy.trans hrun)) ⟨?_, .inr ⟨?_, ?_⟩⟩
        · rw [hheap, hlink]
          exact hup.holds
        · rw [hid, hagree.stopPending h.slots]
          exact hboth.1
        · rw [hid]
          exact hagree.bothUp h.slots hboth.2
    · refine .of_idle (hstate.trans hidle) (hrest (h.settling _ hnone) fun svc => ?_)
      rw [hlink]
  · rw [registered_refresh] at hi
    refine hinv.settling fun y k hk hid => ?_
    obtain ⟨o, ho, hoi⟩ := List.mem_map.mp (hst.dropped y k hk)
    have hone := List.find?_eq_none.mp hi o ho
    rw [hst.id (hlive o ho), hoi] at hone
    exact hone (decide_eq_true hid)

/-- The keys left by the drop loop are those of the ids that are kept.
SOURCE: KlipperInstance.kt:264-277 -/
theorem Staged.keys_le (h : Coherent s) {loaded : List Oid} {s₁ s₂ : Registry}
    (hst : Staged s loaded s₁ s₂)
    (htidy : ∀ o ∈ loaded, ∀ w ∈ s.registered (s.idOf o), s.stateOf w ≠ .idle →
      s.stateOf w = .running ∧ ∀ b ∈ s.work, ∀ x ∈ b.object?, s.idOf x ≠ s.idOf o) :
    s₂.slots.keys.length ≤ s.slots.keys.countP fun y => s.idOf y ∈ loaded.map s.idOf := by
  have hkeys : ∀ x ∈ s₂.slots.keys, ∃ k, s₂.slots.lookup x = some k :=
    fun x hx => (mem_keys_iff_lookup x).mp hx
  have hnodup : (s₂.slots.keys.map s₂.idOf).Nodup := by
    refine s₂.slots.nodupKeys.map_on fun x hx y hy hid => ?_
    obtain ⟨k, hk⟩ := hkeys x hx
    obtain ⟨l, hl⟩ := hkeys y hy
    exact hst.inv₂.key_unique x y k l hk hl hid
  have hsub : s₂.slots.keys.map s₂.idOf ⊆
      (s.slots.keys.filter fun y => s.idOf y ∈ loaded.map s.idOf).map s.idOf := by
    intro i hi
    obtain ⟨x, hx, rfl⟩ := List.mem_map.mp hi
    obtain ⟨k, hk⟩ := hkeys x hx
    have hkept := hst.dropped x k hk
    obtain ⟨o, ho, hid⟩ := List.mem_map.mp hkept
    rw [hst.apart₂.lookup x fun hmiss => hmiss hkept] at hk
    have hid₁ : s₁.idOf x = s.idOf o := by
      rw [← hst.apart₂.id x (hst.inv₁.live_key x k hk), hid]
    suffices hkey : ∃ y l, s.slots.lookup y = some l ∧ s.idOf y = s.idOf o by
      obtain ⟨y, l, hy, hyi⟩ := hkey
      refine List.mem_map.mpr ⟨y, List.mem_filter.mpr ⟨(mem_keys_iff_lookup y).mpr ⟨l, hy⟩, ?_⟩,
        hyi.trans hid⟩
      rw [hyi]
      exact decide_eq_true (List.mem_map_of_mem ho)
    rcases hst.newKey o ho x k hk hid₁ with hkey | ⟨w, hreg, hactive⟩
    · exact hkey
    · obtain ⟨hrun, hquiet⟩ := htidy o ho w hreg hactive
      have hwi := (h.indexed.registered hreg).2
      obtain ⟨hno, hboth⟩ := ((h.steady _ w hreg).running hrun).up.resolve_left
        fun hunbind => hquiet _ hunbind w rfl hwi
      rw [hwi] at hno hboth
      obtain ⟨b, hb, hbi, -⟩ := hboth .klippy
      obtain ⟨y, l, hkey, hyi, -⟩ := h.slots.key_of_bound hno (.inl ⟨b, hb, hbi⟩)
      exact ⟨y, l, hkey, hyi⟩
  have hle := (List.subperm_of_subset hnodup hsub).length_le
  rw [List.length_map, List.length_map, ← List.countP_eq_length_filter] at hle
  exact hle

/-- A reload starts an object when its row autostarts and the object it replaces, if there is
one, is idle.
SOURCE: KlipperInstance.kt:284-287 -/
theorem Staged.starts_iff {loaded : List Oid} {s₁ s₂ : Registry} (hst : Staged s loaded s₁ s₂)
    (hlive : ∀ o ∈ loaded, o < s.created) {o : Oid} (ho : o ∈ loaded) :
    ((s₂.heap o).autostart = true ↔ (s.heap o).autostart = true) ∧
      (s₂.stateOf o = .idle ↔ ∀ w ∈ s.registered (s.idOf o), s.stateOf w = .idle) := by
  have hheap := hst.heap (hlive o ho) ho
  refine ⟨?_, ?_⟩
  · rw [hheap]
    exact Eq.congr_left (congrArg Row.autostart (hst.copied o ho).1)
  · rw [stateOf, hheap]
    rcases (hst.copied o ho).2 with ⟨w, hreg, hcopy, -⟩ | ⟨hnone, hfresh, -⟩
    · rw [← stateOf, hcopy, hreg]
      simp
    · rw [← stateOf, hfresh, hnone]
      simp

/-- The objects a reload starts are those of the rows that autostart.
SOURCE: KlipperInstance.kt:284-287 -/
theorem Staged.autostarts {rows : List Row} {loaded : List Oid} {s₁ s₂ : Registry}
    (hst : Staged s loaded s₁ s₂) (hlive : ∀ o ∈ loaded, o < s.created)
    (hobjects : loaded.map s.heap = rows.map fun row => { toRow := row }) (dirs : String → Dirs) :
    loaded.countP (fun o => (s₂.heap o).autostart = true ∧ s₂.stateOf o = .idle ∧
      (dirs (s₂.idOf o)).directory = true ∧ (dirs (s₂.idOf o)).publicDirectory = true) =
    rows.countP fun row => s.Autostarts dirs row := by
  have hrows : rows.countP (fun row => s.Autostarts dirs row) =
      (loaded.map s.heap).countP fun inst => s.Autostarts dirs inst.toRow := by
    rw [hobjects, List.countP_map]
    rfl
  rw [hrows, List.countP_map]
  refine List.countP_congr fun o ho => ?_
  obtain ⟨hauto, hidle⟩ := hst.starts_iff hlive ho
  have hid : s₂.idOf o = s.idOf o := hst.id (hlive o ho)
  rw [Function.comp_apply, decide_eq_true_iff, decide_eq_true_iff]
  unfold Autostarts
  rw [hauto, hidle, hid]
  rfl

/-- **The stages of a tidy reload**: a coherent registry whose objects are ready to start, and
the autostart loop over them.
SOURCE: KlipperInstance.kt:249-291 -/
theorem Coherent.reload_staged (h : Coherent s) {rows : List Row} {dirs : String → Dirs}
    (hg : s.OrderlyReload rows) (ht : s.TidyReload rows dirs) (hnodup : (rows.map Row.id).Nodup)
    (db : Option (List Row)) (hash : Oid → Nat) :
    ∃ s₁ s₂, Staged (s.loadRows rows).1 (s.loadRows rows).2 s₁ s₂ ∧
      (s.loadRows rows).1.onInstancesLoadedFromDB (s.loadRows rows).2 db hash dirs =
        Registry.autostartAll dirs (s₂.refresh (s.loadRows rows).2) (s.loadRows rows).2 ∧
      Coherent (s₂.refresh (s.loadRows rows).2) ∧
      (s₂.refresh (s.loadRows rows).2).ReadyToStart dirs (s.loadRows rows).2 := by
  have hload := loadRows_spec s rows
  have hready := hg.ready h.slots h.indexed hnodup hload
  have htidy := ht.loaded h.slots h.indexed hload
  have hcoherent := h.loaded hload
  have hunbound : ∀ o ∈ (s.loadRows rows).2, ∀ b ∈ (s.loadRows rows).1.bindings,
      b.owner ≠ o := by
    rintro o ho b hb rfl
    rw [hload.eq] at hb
    exact absurd (h.slots.live_bindings b hb) (Nat.not_lt.mpr (hload.range _ ho).1)
  set u := (s.loadRows rows).1
  set loaded := (s.loadRows rows).2
  have htidy' : ∀ o ∈ loaded, ∀ w ∈ u.registered (u.idOf o), u.stateOf w ≠ .idle →
      u.stateOf w = .running ∧ ∀ b ∈ u.work, ∀ x ∈ b.object?, u.idOf x ≠ u.idOf o := by
    intro o ho
    have hid : u.idOf o ∈ rows.map Row.id := hload.ids ▸ List.mem_map_of_mem ho
    obtain ⟨row, hrow, hrowid⟩ := List.mem_map.mp hid
    rw [← hrowid]
    exact htidy.1 row hrow
  obtain ⟨s₁, s₂, hst, hrun⟩ := Registry.reload_staged hcoherent.slots hcoherent.indexed db hash
    dirs hready.awaiting hready.nodup hready.commands
  have hlive : ∀ o ∈ loaded, o < u.created := fun o ho => (hready.awaiting o ho).fresh.live
  have hid : ∀ o ∈ loaded, s₂.idOf o = u.idOf o := fun o ho => hst.id (hlive o ho)
  have hids : loaded.map s₂.idOf = loaded.map u.idOf := List.map_congr_left hid
  refine ⟨s₁, s₂, hst, hrun, hcoherent.refreshed hst hready.awaiting hunbound htidy',
    fun o ho => ?_, fun o ho => ?_, fun o ho => ?_, ?_, ?_⟩
  · exact (hlive o ho).trans_le hst.created
  · rw [registered_refresh]
    exact findById_of_mem (hids ▸ hready.nodup) ho
  · have hkept : s₁.idOf o ∉ {i | i ∉ loaded.map u.idOf} := fun hmiss => hmiss (by
      rw [hst.apart₁.id o (hlive o ho)]
      exact List.mem_map_of_mem ho)
    have hst₂ := (hst.startable o ho).apart hst.inv₁ hst.apart₂
      ((hlive o ho).trans_le hst.apart₁.created) hkept
    intro hauto hidle
    exact (hst₂ hauto hidle).congr (fun _ => rfl) rfl rfl (work_refresh loaded)
  · exact hids ▸ hready.nodup
  · have hkeys := Staged.keys_le hcoherent hst htidy'
    have hstarts := hst.autostarts hlive hload.objects dirs
    have hslots := htidy.2
    rw [← hload.ids] at hslots
    exact (Nat.add_le_add hkeys (le_of_eq hstarts)).trans hslots

/-- **A tidy reload** keeps the registry coherent.
SOURCE: KlipperInstance.kt:249-291 -/
theorem Coherent.reload (h : Coherent s) {rows : List Row} {dirs : String → Dirs}
    (hg : s.OrderlyReload rows) (ht : s.TidyReload rows dirs) (hnodup : (rows.map Row.id).Nodup)
    (db : Option (List Row)) (hash : Oid → Nat) :
    Coherent ((s.loadRows rows).1.onInstancesLoadedFromDB (s.loadRows rows).2 db hash dirs).1 := by
  obtain ⟨s₁, s₂, -, hrun, hcoherent, hready⟩ := h.reload_staged hg ht hnodup db hash
  rw [hrun]
  exact hcoherent.autostartAll dirs _ hready

/-! ## Runs -/

/-- **One orderly and tidy step** keeps the registry coherent. -/
theorem Truthful.step {a : Action} (hg : s.Truthful a) (h : Coherent s)
    (hs : step s a = some t) : Coherent t := by
  obtain ⟨horderly, htidy⟩ := hg
  unfold Registry.step at hs
  split at hs
  · cases hs
  cases a with
  | start o dirs =>
    simp only [Option.ite_none_right_eq_some, Option.some.injEq] at hs
    obtain ⟨hlt, rfl⟩ := hs
    exact (h.start hlt dirs horderly (fun hidle => (htidy hidle).1) fun hidle hdir hpub =>
      pickSlot_ne_none ((htidy hidle).2 ⟨hdir, hpub⟩)).1
  | stop o =>
    simp only [Option.ite_none_right_eq_some, Option.some.injEq] at hs
    obtain ⟨hlt, rfl⟩ := hs
    exact h.stop hlt horderly htidy
  | onInstancesLoadedFromDB rows db hash dirs =>
    simp only [Option.ite_none_right_eq_some, Option.some.injEq] at hs
    obtain ⟨hnodup, rfl⟩ := hs
    exact h.reload horderly htidy hnodup db hash
  | runPosted =>
    cases hq : s.queue with
    | nil => simp [hq] at hs
    | cons b q =>
      simp only [hq, Option.some.injEq] at hs
      subst hs
      cases b with
      | bind o n => exact h.runBind hq
      | unbind o => exact h.runUnbind hq
      | stopServers =>
        have hpop := h.pop hq rfl
        exact hpop.same (stopServers_same _ hpop.slots.key_active)
      | bindServers => exact (h.pop hq rfl).same (runBindServers_same _)
  | onServiceConnected c =>
    obtain ⟨b, hb, rfl⟩ := Option.map_eq_some_iff.mp hs
    exact h.onServiceConnected (List.mem_of_find?_eq_some hb)
  | onServiceDisconnected c =>
    obtain ⟨b, hb, rfl⟩ := Option.map_eq_some_iff.mp hs
    exact h.onServiceDisconnected (List.mem_of_find?_eq_some hb) (horderly b hb).1 (htidy b hb)

/-- The registry is coherent in every run of orderly and tidy steps. -/
theorem coherent_of_run {acts : List Action}
    (hrun : run (restrict step Truthful) empty acts = some s) : Coherent s :=
  run_restrict_invariant (fun _ _ _ h hg hs => Truthful.step hg h hs) coherent_empty hrun

end Registry

end Cream.Model
