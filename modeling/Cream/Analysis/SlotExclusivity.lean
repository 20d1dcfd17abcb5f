import Cream.Library.Transition
import Cream.Analysis.SlotReload

/-!
# Slot exclusivity and double runs

The ledger of `Cream.Analysis.SlotLedger` does not hold in every run. It is lost when a
callback makes an object idle, or forgets a connection an unbind block was to release;
when an object is started while its printer is up or going down under another object;
when an object is stopped, or dropped by a reload, that does not hold its printer's
connections; and when a reload files a printer under a second object. `Orderly` is a run's
steps that do none of this, stated on the state before the step. In every orderly run no
slot is bound for two ids (`slots_exclusive`), and no id is up twice (`no_double_run`).
-/

set_option autoImplicit false

namespace Cream.Model

open Cream.Library.Transition

namespace Registry

variable {s t u : Registry}

/-! ## Orderly steps -/

instance (s : Registry) (i : String) : Decidable (s.Adoptable i) :=
  inferInstanceAs (Decidable (∀ w ∈ s.registered i, s.stateOf w ≠ .idle →
    ∀ y ∈ s.slots.keys, s.idOf y = i → y = w))

/-- A reload that files no printer under a second object, drops only objects that hold
their printer's connections, and autostarts only printers nothing is going on with. -/
def OrderlyReload (s : Registry) (rows : List Row) : Prop :=
  (∀ row ∈ rows, s.Adoptable row.id) ∧
    (∀ y ∈ s.slots.keys, s.idOf y ∉ rows.map Row.id →
      s.stateOf y = .running ∨ s.stateOf y = .starting → s.Commands y) ∧
    ∀ row ∈ rows, row.autostart = true →
      (∀ w ∈ s.registered row.id, s.stateOf w = .idle) → s.IdFree row.id

instance (s : Registry) (rows : List Row) : Decidable (s.OrderlyReload rows) :=
  inferInstanceAs (Decidable (_ ∧ _ ∧ _))

/-- A callback that does not forget a connection an unbind block is to release, and does
not make an object idle whose binding nothing is about to end. -/
def OrderlyDisconnect (s : Registry) (b : Binding) : Prop :=
  .unbind b.owner ∉ s.work ∧ (((s.heap b.owner).link b.svc.other).connected = true ∨
    s.StopPending (s.idOf b.owner))

instance (s : Registry) (b : Binding) : Decidable (s.OrderlyDisconnect b) :=
  inferInstanceAs (Decidable (_ ∧ _))

/-- The steps that keep the ledger true. -/
def Orderly (s : Registry) : Action → Prop
  | .start o _ => s.stateOf o = .idle → s.IdFree (s.idOf o)
  | .stop o => s.stateOf o = .running ∨ s.stateOf o = .starting → s.Commands o
  | .onInstancesLoadedFromDB rows _ _ _ => s.OrderlyReload rows
  | .runPosted => True
  | .onServiceConnected _ => True
  | .onServiceDisconnected c => ∀ b ∈ s.bindingOf c, s.OrderlyDisconnect b

instance (s : Registry) (a : Action) : Decidable (s.Orderly a) :=
  match a with
  | .start _ _ => inferInstanceAs (Decidable (_ → _))
  | .stop _ => inferInstanceAs (Decidable (_ → _))
  | .onInstancesLoadedFromDB rows _ _ _ => inferInstanceAs (Decidable (s.OrderlyReload rows))
  | .runPosted => inferInstanceAs (Decidable True)
  | .onServiceConnected _ => inferInstanceAs (Decidable True)
  | .onServiceDisconnected c =>
    inferInstanceAs (Decidable (∀ b ∈ s.bindingOf c, s.OrderlyDisconnect b))

/-! ## One step -/

/-- What the companion refers to exists after a posted block. -/
theorem Indexed.runBlock (hi : Indexed s) (h : SlotInv s) {b : Block} {q : List Block}
    (hq : s.queue = b :: q) : Indexed (({ s with queue := q } : Registry).runBlock b) := by
  set p : Registry := { s with queue := q } with hp
  have hsame : ∀ u, SameInstances p u → Indexed u := fun u hu =>
    hi.congr (le_of_eq hu.created.symm) (fun x _ => by rw [idOf, hu.heap, idOf])
      hu.instances hu.instanceMap
  cases b with
  | bind o n =>
    have hmem : .bind o n ∈ s.work := mem_work.mpr ⟨hq ▸ List.mem_cons_self, rfl⟩
    have hservice : HasService (p.heap o).slot := h.bind_service _ hmem o rfl
    have hrun := runBind_eq p o n hservice
    have hheap : ∀ x, (p.runBind o n).idOf x = s.idOf x := by
      intro x
      rw [hrun, idOf]
      by_cases hx : x = o
      · subst hx
        simp [Function.update_self, idOf, hp]
      · simp [Function.update_of_ne hx, idOf, hp]
    refine hi.congr (t := p.runBind o n) ?_ (fun x _ => hheap x) ?_ ?_
    · rw [hrun]
    · rw [hrun]
    · rw [hrun]
  | unbind o =>
    have hrel := (runUnbind_spec (s := p) (o := o)).1
    exact hi.congr (le_of_eq hrel.created.symm) (fun x _ => hrel.idOf x) hrel.instances
      hrel.instanceMap
  | stopServers =>
    refine hsame _ (stopServers_same p ?_)
    exact h.key_active
  | bindServers => exact hsame _ (runBindServers_same p)

/-- It does after a service is gone. -/
theorem Indexed.onUnbound (hi : Indexed s) (svc : Svc) (o : Oid) :
    Indexed (onUnbound svc s o) := by
  have hmodify : Indexed (s.modifyLink o svc fun l =>
      { l with connection := none, connected := false }) :=
    hi.congr le_rfl (fun x _ => idOf_modify s o x _ fun _ => rfl) rfl rfl
  rw [onUnbound_eq]
  split
  · exact hmodify
  · exact (Local.notifyStateChanged o .idle).indexed hmodify

/-- It does after one has come up. -/
theorem Indexed.onServiceConnected (hi : Indexed s) (b : Binding) :
    Indexed (s.onServiceConnected b) := by
  have hmodify : Indexed ((s.setConnected b.conn true).modifyLink b.owner b.svc fun l =>
      { l with connected := true }) :=
    hi.congr le_rfl (fun x _ => idOf_modify (s.setConnected b.conn true) b.owner x _
      fun _ => rfl) rfl rfl
  unfold Registry.onServiceConnected
  simp only
  split
  · exact (Local.notifyStateChanged b.owner .running).indexed hmodify
  · exact hmodify

/-- What a reload may start from: the objects of the load wait for their rounds, and the
keys to be dropped command their ids. -/
structure ReadyToReload (s : Registry) (loaded : List Oid) : Prop where
  inv : SlotInv s
  indexed : Indexed s
  awaiting : ∀ o ∈ loaded, s.Awaiting o
  nodup : (loaded.map s.idOf).Nodup
  commands : ∀ y ∈ s.slots.keys, s.idOf y ∉ loaded.map s.idOf →
    s.stateOf y = .running ∨ s.stateOf y = .starting → s.Commands y

/-- **Loading the rows of an orderly reload** makes it ready.
SOURCE: KlipperInstance.kt:249-254 -/
theorem OrderlyReload.ready {rows : List Row} (hg : s.OrderlyReload rows) (h : SlotInv s)
    (hi : Indexed s) (hnodup : (rows.map Row.id).Nodup) {loaded : List Oid}
    (hload : Loaded s rows t loaded) : ReadyToReload t loaded := by
  have hlooked := hload.looked hi ""
  have hquiet := Quiet.looked h hlooked
  have hapart : Apart ∅ s t := .looked hlooked
  have hinv := h.quiet hquiet
  have hindexed := hlooked.indexed hi
  have hids := hload.ids
  have hst : ∀ x < s.created, t.stateOf x = s.stateOf x := fun x hx => by
    rw [stateOf, hload.heap x hx, stateOf]
  have hslots : t.slots = s.slots := by rw [hload.eq]
  have hwork : t.work = s.work := hlooked.work
  have hrow : ∀ o ∈ loaded, ∃ row ∈ rows, t.heap o = { toRow := row } ∧ t.idOf o = row.id := by
    intro o ho
    obtain ⟨row, hrow, heq⟩ := hload.fresh ho
    exact ⟨row, hrow, heq, by rw [idOf, heq]⟩
  refine ⟨hinv, hindexed, fun o ho => ?_, hids ▸ hnodup, ?_⟩
  · obtain ⟨row, hmem, heq, hid⟩ := hrow o ho
    obtain ⟨hge, hlt⟩ := hload.range o ho
    have hold : ∀ x < s.created, x ≠ o := by
      rintro x hx rfl
      exact absurd hx (Nat.not_lt.mpr hge)
    constructor
    case fresh =>
      refine ⟨hlt, ⟨row, heq⟩, ?_, ?_, ?_, ?_⟩
      · rw [hslots]
        cases hk : s.slots.lookup o with
        | none => rfl
        | some k => exact absurd rfl (hold o (h.live_key o k hk))
      · rw [hwork]
        exact fun b hb ho => hold o (h.live_work b hb o ho) rfl
      · intro hmem
        rw [hload.eq] at hmem
        exact hold o (hi.instances o hmem) rfl
      · intro i hreg
        rw [hload.registered hi] at hreg
        exact hold o (hi.registered hreg).1 rfl
    case adoptable =>
      rw [hid]
      intro w hw hactive y hy hsame
      rw [hload.registered hi] at hw
      rw [hslots] at hy
      obtain ⟨k, hk⟩ := (mem_keys_iff_lookup y).mp hy
      rw [hst w (hi.registered hw).1] at hactive
      rw [hapart.id y (h.live_key y k hk)] at hsame
      exact hg.1 row hmem w hw hactive y hy hsame
    case startable =>
      rw [hid, heq]
      intro hauto hidle
      refine (hg.2.2 row hmem hauto fun w hw => ?_).apart h hapart (Set.notMem_empty _)
      have hw' : w ∈ t.registered row.id := by
        rw [hload.registered hi]
        exact hw
      rw [← hst w (hi.registered hw).1]
      exact hidle w hw'
  · intro y hy hmiss hup
    rw [hslots] at hy
    obtain ⟨k, hk⟩ := (mem_keys_iff_lookup y).mp hy
    have hlt := h.live_key y k hk
    rw [hids, hapart.id y hlt] at hmiss
    rw [hst y hlt] at hup
    exact (hg.2.1 y hy hmiss hup).apart h hapart hlt (Set.notMem_empty _)

/-- **One orderly step** keeps the ledger true. -/
theorem Orderly.step {a : Action} (hg : s.Orderly a) (h : SlotInv s ∧ Indexed s)
    (hs : step s a = some t) : SlotInv t ∧ Indexed t := by
  obtain ⟨h, hi⟩ := h
  unfold Registry.step at hs
  split at hs
  · cases hs
  cases a with
  | start o dirs =>
    simp only [Option.ite_none_right_eq_some, Option.some.injEq] at hs
    obtain ⟨hlt, rfl⟩ := hs
    exact ⟨h.start hlt dirs hg, (Local.start o dirs).indexed hi⟩
  | stop o =>
    simp only [Option.ite_none_right_eq_some, Option.some.injEq] at hs
    obtain ⟨hlt, rfl⟩ := hs
    exact ⟨h.stop hlt hg, (Local.stop o).indexed hi⟩
  | onInstancesLoadedFromDB rows db hash dirs =>
    simp only [Option.ite_none_right_eq_some, Option.some.injEq] at hs
    obtain ⟨hnodup, rfl⟩ := hs
    have hready := OrderlyReload.ready hg h hi hnodup (loadRows_spec s rows)
    exact hready.inv.reload hready.indexed db hash dirs hready.awaiting hready.nodup
      hready.commands
  | runPosted =>
    cases hq : s.queue with
    | nil => simp [hq] at hs
    | cons b q =>
      simp only [hq, Option.some.injEq] at hs
      subst hs
      exact ⟨h.runBlock hq, hi.runBlock h hq⟩
  | onServiceConnected c =>
    obtain ⟨b, -, rfl⟩ := Option.map_eq_some_iff.mp hs
    exact ⟨h.onServiceConnected b, hi.onServiceConnected b⟩
  | onServiceDisconnected c =>
    obtain ⟨b, hb, rfl⟩ := Option.map_eq_some_iff.mp hs
    obtain ⟨hqueue, hother⟩ := hg b hb
    have hset : Indexed (s.setConnected b.conn false) := hi.congr le_rfl (fun _ _ => rfl) rfl rfl
    exact ⟨h.onServiceDisconnected b hqueue hother, hset.onUnbound b.svc b.owner⟩

/-- **Every orderly run** ends with a true ledger. -/
theorem slotInv_of_run {acts : List Action}
    (hrun : run (restrict step Orderly) empty acts = some s) : SlotInv s := by
  have hempty : SlotInv empty ∧ Indexed empty :=
    ⟨slotInv_empty, fun o ho => (List.not_mem_nil ho).elim, fun i o ho => by cases ho⟩
  exact (run_restrict_invariant (fun _ _ _ h hg hs => Orderly.step hg h hs) hempty hrun).1

/-! ## The service classes -/

/-- No binding is made or ended. -/
def SameBindings (s t : Registry) : Prop := t.bindings = s.bindings ∧ t.nextConn = s.nextConn

/-- Two steps that bind nothing bind nothing together. -/
theorem SameBindings.trans (h : SameBindings s t) (h' : SameBindings t u) : SameBindings s u :=
  ⟨h'.1.trans h.1, h'.2.trans h.2⟩

/-- A step about some ids binds nothing. -/
theorem SameBindings.of_local {I : Set String} (h : Local I s t) : SameBindings s t :=
  ⟨h.bindings, h.nextConn⟩

/-- `getInstance` binds nothing. -/
theorem SameBindings.getInstance (i : String) (db : Option (List Row)) :
    SameBindings s (s.getInstance i db).1 := by
  have hmap := instanceMapGet_eq (s := s) i
  unfold Registry.getInstance
  rcases hget : s.instanceMapGet i with ⟨u, r⟩
  rw [hget] at hmap
  have hu : SameBindings s u := by
    have hb := congrArg Registry.bindings hmap
    have hn := congrArg Registry.nextConn hmap
    exact ⟨hb, hn⟩
  cases r with
  | some o => exact hu
  | none =>
    cases db with
    | none => exact hu
    | some rows =>
      have hl : SameBindings u (u.loadRows rows).1 := by
        rw [(loadRows_spec u rows).eq]
        exact ⟨rfl, rfl⟩
      simp only
      split <;> exact hu.trans hl

/-- A round of the adoption loop binds nothing. -/
theorem SameBindings.adoptRow (db : Option (List Row)) (inst : Oid) :
    SameBindings s (adoptRow db s inst) := by
  have hget := SameBindings.getInstance (s := s) (s.idOf inst) db
  unfold Registry.adoptRow
  rcases hrun : s.getInstance (s.idOf inst) db with ⟨u, r⟩
  rw [hrun] at hget
  cases r with
  | some was =>
    simp only
    rw [adopt_eq]
    exact hget
  | none => exact hget

/-- Nor does the autostart loop. -/
theorem SameBindings.autostartAll (dirs : String → Dirs) (os : List Oid) :
    SameBindings s (autostartAll dirs s os).1 := by
  induction os generalizing s with
  | nil => exact ⟨rfl, rfl⟩
  | cons inst rest ih =>
    have hstart := SameBindings.of_local (Local.start (s := s) inst (dirs (s.idOf inst)))
    unfold Registry.autostartAll
    split
    · rcases hrun : s.start inst (dirs (s.idOf inst)) with ⟨t, outcome⟩
      rw [hrun] at hstart
      cases outcome with
      | threw => exact hstart
      | returned => exact hstart.trans ih
    · exact ih

/-- A reload neither makes nor ends a binding.
SOURCE: KlipperInstance.kt:249-291 -/
theorem SameBindings.reload (loaded : List Oid) (db : Option (List Row)) (hash : Oid → Nat)
    (dirs : String → Dirs) :
    SameBindings s (s.onInstancesLoadedFromDB loaded db hash dirs).1 := by
  have hadopt : ∀ (os : List Oid) (t : Registry),
      SameBindings t (os.foldl (Registry.adoptRow db) t) := by
    intro os
    induction os with
    | nil => exact fun _ => ⟨rfl, rfl⟩
    | cons o os ih => exact fun t => (SameBindings.adoptRow db o).trans (ih _)
  have hdrop : ∀ (ids : List String) (os : List Oid) (t : Registry),
      SameBindings t (os.foldl (dropMissing ids) t) := by
    intro ids os
    induction os with
    | nil => exact fun _ => ⟨rfl, rfl⟩
    | cons o os ih =>
      intro t
      refine SameBindings.trans ?_ (ih _)
      unfold dropMissing
      split
      · exact ⟨rfl, rfl⟩
      · have hstop := SameBindings.of_local
          (Local.stop (s := { t with slots := t.slots.erase o }) o)
        exact hstop
  have hrefresh : ∀ t : Registry, SameBindings t (t.refresh loaded) := fun _ => ⟨rfl, rfl⟩
  exact (hadopt loaded s).trans
    ((hdrop _ _ _).trans ((hrefresh _).trans (.autostartAll dirs loaded)))

/-- Nor does stopping the servers. -/
theorem stopServers_bindings : s.stopServerServicesIfNoSlots.bindings = s.bindings := by
  unfold stopServerServicesIfNoSlots
  split
  · rfl
  · simp only
    split <;> split <;> rfl

/-- Only the block of `start` makes bindings, and it looks for their service classes.
SOURCE: KlipperInstance.kt:95, 114 -/
theorem service_step {a : Action} (h : ∀ b ∈ s.bindings, HasService b.slot)
    (hs : step s a = some t) : ∀ b ∈ t.bindings, HasService b.slot := by
  have hkeep : ∀ u : Registry, u.bindings = s.bindings → ∀ b ∈ u.bindings, HasService b.slot :=
    fun u hu b hb => h b (hu ▸ hb)
  have hset : ∀ c v, ∀ b ∈ (s.setConnected c v).bindings, HasService b.slot := by
    intro c v b hb
    obtain ⟨d, hd, rfl⟩ := List.mem_map.mp hb
    split <;> exact h d hd
  unfold Registry.step at hs
  split at hs
  · cases hs
  cases a with
  | start o dirs =>
    simp only [Option.ite_none_right_eq_some, Option.some.injEq] at hs
    exact hs.2 ▸ hkeep _ (Local.start o dirs).bindings
  | stop o =>
    simp only [Option.ite_none_right_eq_some, Option.some.injEq] at hs
    exact hs.2 ▸ hkeep _ (Local.stop o).bindings
  | onInstancesLoadedFromDB rows db hash dirs =>
    simp only [Option.ite_none_right_eq_some, Option.some.injEq] at hs
    have hreload := SameBindings.reload (s := (s.loadRows rows).1) (s.loadRows rows).2 db hash dirs
    refine hs.2 ▸ hkeep _ (hreload.1.trans ?_)
    rw [(loadRows_spec s rows).eq]
  | runPosted =>
    cases hq : s.queue with
    | nil => simp [hq] at hs
    | cons b q =>
      simp only [hq, Option.some.injEq] at hs
      subst hs
      set p : Registry := { s with queue := q } with hp
      cases b with
      | bind o n =>
        by_cases hservice : HasService (p.heap o).slot
        · have hrun := runBind_eq p o n hservice
          show ∀ b ∈ (p.runBind o n).bindings, HasService b.slot
          rw [hrun]
          intro b hb
          simp only [List.mem_append, List.mem_cons, List.not_mem_nil, or_false] at hb
          rcases hb with hb | rfl | rfl
          · exact h b hb
          · exact hservice
          · exact hservice
        · refine hkeep (p.runBind o n) ?_
          unfold runBind
          rw [if_neg hservice]
      | unbind o =>
        intro b hb
        have hb : b ∈ (p.runUnbind o).bindings := hb
        rw [runUnbind_spec.2.2] at hb
        exact h b (List.mem_filter.mp hb).1
      | stopServers => exact hkeep (p.stopServerServicesIfNoSlots) stopServers_bindings
      | bindServers => exact hkeep (p.runBindServers) (runBindServers_same p).bindings
  | onServiceConnected c =>
    obtain ⟨b, -, rfl⟩ := Option.map_eq_some_iff.mp hs
    unfold Registry.onServiceConnected
    simp only
    split
    · rw [notifyStateChanged_bindings]
      exact hset b.conn true
    · exact hset b.conn true
  | onServiceDisconnected c =>
    obtain ⟨b, -, rfl⟩ := Option.map_eq_some_iff.mp hs
    unfold Registry.onServiceDisconnected
    rw [onUnbound_bindings]
    exact hset b.conn false

/-! ## The two properties -/

/-- **Slot exclusivity.** Every run binds service classes that exist only, and in an
orderly run no two ids are bound at one slot. -/
theorem slots_exclusive {acts : List Action} (hrun : run step empty acts = some s) :
    (∀ b ∈ s.bindings, 0 ≤ b.slot ∧ b.slot < SLOTS_COUNT) ∧
      (run (restrict step Orderly) empty acts = some s →
        ∀ b ∈ s.bindings, ∀ c ∈ s.bindings, b.slot = c.slot →
          s.idOf b.owner = s.idOf c.owner) := by
  constructor
  · have hempty : ∀ b ∈ empty.bindings, HasService b.slot := fun b hb => (List.not_mem_nil hb).elim
    exact run_invariant (fun _ _ _ h hs => service_step h hs) hempty hrun
  · intro horderly b hb c hc hslot
    have hexcl := (slotInv_of_run horderly).safe.exclusive
    exact hexcl _ _ b.slot ⟨b, hb, rfl⟩ ⟨c, hc, by rw [hslot]⟩

/-- Two printers, the second with autostart. -/
def twoRows : List Row := [⟨"A", "a", "PRINTER", false⟩, ⟨"B", "b", "PRINTER", true⟩]

/-- A start whose directories exist. -/
def startOf (o : Oid) : Action := .start o ⟨true, true⟩

/-- A reload with nothing in the database's cache and all directories in place. -/
def reloadOf (rows : List Row) : Action :=
  .onInstancesLoadedFromDB rows none id fun _ => ⟨true, true⟩

/-- Both printers come up, the rows are loaded again, a service of one of them drops out,
and the other is stopped through its new object. -/
def orderlyActions : List Action :=
  [reloadOf twoRows, startOf 0, .runPosted, .runPosted, .runPosted, .onServiceConnected 0,
    .onServiceConnected 1, .onServiceConnected 2, .onServiceConnected 3, reloadOf twoRows,
    .runPosted, .runPosted, .onServiceDisconnected 2, .stop 3]

/-- In this run four bindings are outstanding at the end, two at each of two slots. -/
theorem slots_exclusive_two_printers :
    ∃ s, run step empty orderlyActions = some s ∧ s.bindings.map Binding.slot = [0, 0, 1, 1] ∧
      ∀ b ∈ s.bindings, ∀ c ∈ s.bindings, b.slot = c.slot →
        s.idOf b.owner = s.idOf c.owner := by
  have hrun : (run (restrict step Orderly) empty orderlyActions).any
      (fun s => s.bindings.map Binding.slot = [0, 0, 1, 1]) = true := by
    decide +kernel
  obtain ⟨s, hs, hslots⟩ := (Option.any_eq_true _ _).mp hrun
  have hplain := run_of_run_restrict hs
  exact ⟨s, hplain, of_decide_eq_true hslots, (slots_exclusive hplain).2 hs⟩

/-- A printer comes up, both its services are reported gone, and another printer starts:
the first is idle and its slot free, but its bindings are still there. -/
def forgottenActions : List Action :=
  [reloadOf [⟨"A", "a", "PRINTER", false⟩, ⟨"B", "b", "PRINTER", false⟩], .runPosted, startOf 0,
    .runPosted, .onServiceConnected 0, .onServiceConnected 1, .runPosted,
    .onServiceDisconnected 0, .onServiceDisconnected 1, startOf 1, .runPosted, .runPosted]

/-- Slot exclusivity fails in this run.
SOURCE: KlipperInstance.kt:166-180, 187-193 -/
theorem slots_not_exclusive :
    ¬∀ acts s, run step empty acts = some s → ∀ b ∈ s.bindings, ∀ c ∈ s.bindings,
      b.slot = c.slot → s.idOf b.owner = s.idOf c.owner := by
  intro h
  have hrun : (run step empty forgottenActions).any (fun s => ∃ b ∈ s.bindings,
      ∃ c ∈ s.bindings, b.slot = c.slot ∧ s.idOf b.owner ≠ s.idOf c.owner) = true := by
    decide +kernel
  obtain ⟨s, hs, hclash⟩ := (Option.any_eq_true _ _).mp hrun
  obtain ⟨b, hb, c, hc, hslot, hid⟩ := of_decide_eq_true hclash
  exact hid (h _ s hs b hb c hc hslot)

/-- **No double run.** In an orderly run every id occurs on at most one key of the slots
and has at most one outstanding binding of each service, over all its objects. -/
theorem no_double_run {acts : List Action}
    (hrun : run (restrict step Orderly) empty acts = some s) (i : String) :
    (∀ x ∈ s.slots.keys, ∀ y ∈ s.slots.keys, s.idOf x = i → s.idOf y = i → x = y) ∧
      ∀ svc, (s.bindings.filter fun b => s.idOf b.owner = i ∧ b.svc = svc).length ≤ 1 := by
  have h := slotInv_of_run hrun
  constructor
  · intro x hx y hy hxi hyi
    obtain ⟨k, hk⟩ := (mem_keys_iff_lookup x).mp hx
    obtain ⟨l, hl⟩ := (mem_keys_iff_lookup y).mp hy
    exact h.key_unique x y k l hk hl (hxi.trans hyi.symm)
  · intro svc
    rw [← List.countP_eq_length_filter]
    exact h.single i svc

/-- In an orderly run two ids are up, each under one key and with one binding of each
service, after a reload has replaced both objects. -/
theorem no_double_run_two_printers :
    ∃ s, run (restrict step Orderly) empty orderlyActions = some s ∧ s.slots.keys.length = 2 ∧
      ∀ svc, (s.bindings.filter fun b => s.idOf b.owner = "A" ∧ b.svc = svc).length ≤ 1 := by
  have hrun : (run (restrict step Orderly) empty orderlyActions).any
      (fun s => s.slots.keys.length = 2) = true := by
    decide +kernel
  obtain ⟨s, hs, hkeys⟩ := (Option.any_eq_true _ _).mp hrun
  exact ⟨s, hs, of_decide_eq_true hkeys, (no_double_run hs "A").2⟩

/-- A printer is loaded twice, and both its objects are started. -/
def supersededActions : List Action :=
  [reloadOf [⟨"A", "a", "PRINTER", false⟩], reloadOf [⟨"A", "a", "PRINTER", false⟩],
    startOf 0, startOf 1, .runPosted, .runPosted, .runPosted, .runPosted]

/-- One id is up twice in this run: on two keys, and with two bindings of each service.
SOURCE: KlipperInstance.kt:91, 280 -/
theorem double_run :
    ¬∀ acts s, run step empty acts = some s → ∀ i,
      (∀ x ∈ s.slots.keys, ∀ y ∈ s.slots.keys, s.idOf x = i → s.idOf y = i → x = y) ∧
        ∀ svc, (s.bindings.filter fun b => s.idOf b.owner = i ∧ b.svc = svc).length ≤ 1 := by
  intro h
  have hrun : (run step empty supersededActions).any (fun s =>
      (s.bindings.filter fun b => s.idOf b.owner = "A" ∧ b.svc = .klippy).length = 2) = true := by
    decide +kernel
  obtain ⟨s, hs, htwo⟩ := (Option.any_eq_true _ _).mp hrun
  have hle := (h _ s hs "A").2 .klippy
  rw [of_decide_eq_true htwo] at hle
  exact absurd hle (by decide)

end Registry

end Cream.Model
