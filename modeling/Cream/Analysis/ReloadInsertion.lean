import Cream.Analysis.ReloadCoherence

/-!
# Inserting a reload

In a run of orderly and tidy steps the state of a printer is decided by what happens to the
printer itself (`Input`): the calls on its registered object, the callbacks of its services,
the reloads that start it or stop it, and the moment its last posted block has run. `Phase`
is what these leave of it, and `Shows` what a registry in that phase has queued and bound for
the id. Everything else is no input, a reload that keeps the row among it, as long as it does
not start the printer. So with such a reload inserted the registry answers the same in the end
(`reload_coherent`).
-/

set_option autoImplicit false

namespace Cream.Model

open Cream.Library.Transition

namespace Registry

variable {s t : Registry} {i : String} {o : Oid}

/-! ## What happens to a printer -/

/-- What has become of a printer. -/
inductive Phase where
  | off
  /-- it is started, and these of its services are connected -/
  | on (connected : Svc → Bool)
  | stopping

/-- What happens to a printer in a step. -/
inductive Input where
  /-- `start()` is called on the registered object, by the app or by a reload -/
  | start (dirs : Dirs)
  /-- `stop()` is called on the registered object -/
  | stop
  /-- an object that the registry does not have, or no longer has, is stopped -/
  | halted
  | connected (svc : Svc)
  | disconnected (svc : Svc)
  /-- a block about the printer has run, and no other is queued -/
  | settled
deriving DecidableEq, Repr

/-- What an input makes of a printer. -/
def Phase.next : Phase → Input → Phase
  | .off, .start dirs =>
    if dirs.directory = true ∧ dirs.publicDirectory = true then .on fun _ => false else .stopping
  | .on _, .stop => .stopping
  | _, .halted => .stopping
  | .on f, .connected svc => .on (Function.update f svc true)
  | .stopping, .settled => .off
  | p, _ => p

/-- The state a printer shows when nothing is posted. -/
def Phase.shown : Phase → State
  | .off => .idle
  | .on f => if f .klippy = true ∧ f .moonraker = true then .running else .starting
  | .stopping => .stopping

/-- The rows start the printer of an id: its row autostarts, and it is idle or new. -/
def StartsRow (s : Registry) (i : String) (rows : List Row) : Prop :=
  ∃ row ∈ rows, row.id = i ∧ row.autostart = true ∧ ∀ w ∈ s.registered i, s.stateOf w = .idle

instance (s : Registry) (i : String) (rows : List Row) : Decidable (s.StartsRow i rows) :=
  inferInstanceAs (Decidable (∃ row ∈ rows, _ ∧ _ ∧ ∀ w ∈ s.registered i, s.stateOf w = .idle))

/-- The rows keep the id, and do not start its printer. -/
def KeepsRow (s : Registry) (i : String) (rows : List Row) : Prop :=
  i ∈ rows.map Row.id ∧ ¬s.StartsRow i rows

instance (s : Registry) (i : String) (rows : List Row) : Decidable (s.KeepsRow i rows) :=
  inferInstanceAs (Decidable (_ ∧ _))

/-- The object of an id is up and has a slot. -/
def UpWithSlot (s : Registry) (i : String) : Prop :=
  ∃ y ∈ s.slots.keys, s.idOf y = i ∧ (s.stateOf y = .running ∨ s.stateOf y = .starting)

instance (s : Registry) (i : String) : Decidable (s.UpWithSlot i) :=
  inferInstanceAs (Decidable (∃ y ∈ s.slots.keys, _ ∧ _))

/-- The block at the head of a queue is about the id, and none behind it is. -/
def LastOf (s : Registry) (i : String) (b : Block) (queue : List Block) : Prop :=
  (∃ o ∈ b.object?, s.idOf o = i) ∧ ∀ c ∈ queue, ∀ o ∈ c.object?, s.idOf o ≠ i

instance (s : Registry) (i : String) (b : Block) (queue : List Block) :
    Decidable (s.LastOf i b queue) :=
  inferInstanceAs (Decidable (_ ∧ _))

/-- What a step is to the printer of an id, if it is anything to it. -/
def inputOf (s : Registry) (i : String) : Action → Option Input
  | .start o dirs => if s.registered i = some o then some (.start dirs) else none
  | .stop o =>
    if s.registered i = some o then some .stop
    else if s.idOf o = i ∧ (s.stateOf o = .running ∨ s.stateOf o = .starting) then some .halted
    else none
  | .onInstancesLoadedFromDB rows _ _ dirs =>
    if i ∈ rows.map Row.id then if s.StartsRow i rows then some (.start (dirs i)) else none
    else if s.UpWithSlot i then some .halted else none
  | .runPosted =>
    match s.queue with
    | [] => none
    | b :: queue => if s.LastOf i b queue then some .settled else none
  | .onServiceConnected c =>
    (s.bindingOf c).bind fun b => if s.idOf b.owner = i then some (.connected b.svc) else none
  | .onServiceDisconnected c =>
    (s.bindingOf c).bind fun b => if s.idOf b.owner = i then some (.disconnected b.svc) else none

/-- What happens to the printer of an id in a run. -/
def history (i : String) : Registry → List Action → List Input
  | _, [] => []
  | s, a :: acts =>
    (s.inputOf i a).toList ++ match step s a with
      | some t => history i t acts
      | none => []

/-! ## What a phase shows of the registry -/

/-- What the registry has queued and bound for the id of a printer in a phase. -/
def Shows (s : Registry) (i : String) : Phase → Prop
  | .off => (∀ b ∈ s.bindings, s.idOf b.owner ≠ i) ∧
    ∀ b ∈ s.work, ∀ o ∈ b.object?, s.idOf o ≠ i
  | .on f => ¬s.StopPending i ∧
    (((∃ b ∈ s.work, ∃ o ∈ b.bound?, s.idOf o = i) ∧ ∀ svc, f svc = false) ∨
      ∀ svc, ∃ b ∈ s.bindings, s.idOf b.owner = i ∧ b.svc = svc ∧ b.connected = f svc)
  | .stopping => s.StopPending i

variable {p : Phase} {f : Svc → Bool}

/-- A step about other ids leaves the printer in its phase. -/
theorem Shows.agree (hp : s.Shows i p) (h : SlotInv s) (ha : Agree i s t) : t.Shows i p := by
  cases p with
  | off =>
    obtain ⟨hbound, hposted⟩ := hp
    refine ⟨fun b hb hbi => ?_, fun b hb o ho hoi => ?_⟩
    · have hmem := ha.bound b hb hbi
      exact hbound b hmem ((ha.id _ (h.live_bindings b hmem)).symm.trans hbi)
    · have hmem := ha.work b hb o ho hoi
      exact hposted b hmem o ho ((ha.id o (h.live_work b hmem o ho)).symm.trans hoi)
  | on f =>
    obtain ⟨hno, hup⟩ := hp
    refine ⟨(ha.stopPending h).not.mpr hno, hup.imp ?_ ?_⟩
    · rintro ⟨⟨b, hb, o, ho, hoi⟩, hf⟩
      have hobj := object?_of_bound? ho
      exact ⟨⟨b, ha.kept b hb o hobj hoi, o, ho,
        (ha.id o (h.live_work b hb o hobj)).trans hoi⟩, hf⟩
    · intro hall svc
      obtain ⟨b, hb, hbi, hsvc, hcon⟩ := hall svc
      exact ⟨b, ha.bound' b hb hbi, (ha.id _ (h.live_bindings b hb)).trans hbi, hsvc, hcon⟩
  | stopping => exact (ha.stopPending h).mpr hp

/-- Something of a printer that is on is bound, or about to be. -/
theorem Shows.bound (hp : s.Shows i (.on f)) : (∃ b ∈ s.bindings, s.idOf b.owner = i) ∨
    ∃ b ∈ s.work, ∃ o ∈ b.bound?, s.idOf o = i := by
  rcases hp.2 with ⟨hposted, -⟩ | hall
  · exact .inr hposted
  · obtain ⟨b, hb, hbi, -⟩ := hall .klippy
    exact .inl ⟨b, hb, hbi⟩

/-- The registered object of a printer that is off is idle. -/
theorem Shows.idle (hp : s.Shows i .off) (h : Coherent s) (ho : s.registered i = some o) :
    s.stateOf o = .idle := by
  obtain ⟨-, rfl⟩ := h.indexed.registered ho
  have hs := h.steady _ o ho
  obtain ⟨hbound, hposted⟩ := hp
  have hunbind : .unbind o ∉ s.work := fun hmem => hposted _ hmem o rfl rfl
  cases hst : s.stateOf o with
  | idle => rfl
  | starting =>
    rcases (hs.starting hst).progress with ⟨⟨b, hb, hbo⟩, -⟩ | ⟨hall, -⟩
    · exact absurd rfl (hposted b hb o (object?_of_bound? hbo))
    · obtain ⟨b, hb, hown, -⟩ := hall .klippy
      exact absurd (congrArg s.idOf hown) (hbound b hb)
  | running =>
    obtain ⟨-, hboth⟩ := (hs.running hst).up.resolve_left hunbind
    obtain ⟨b, hb, hbi, -⟩ := hboth .klippy
    exact absurd hbi (hbound b hb)
  | stopping => exact absurd (hs.stopping hst) hunbind

/-- The registered object of a printer that is on is starting or running. -/
theorem Shows.up (hp : s.Shows i (.on f)) (h : Coherent s) (ho : s.registered i = some o) :
    s.stateOf o = .running ∨ s.stateOf o = .starting := by
  obtain ⟨-, rfl⟩ := h.indexed.registered ho
  have hs := h.steady _ o ho
  cases hst : s.stateOf o with
  | idle => exact absurd ((hs.idle hst).settling hp.bound) hp.1
  | starting => exact .inr rfl
  | running => exact .inl rfl
  | stopping => exact absurd (stopPending_of_unbind (hs.stopping hst)) hp.1

/-- **What the registry answers** for an id with nothing posted is what the phase shows. -/
theorem Shows.shown (hp : s.Shows i p) (h : Coherent s) (hq : s.queue = [])
    (ho : s.registered i = some o) : s.stateOf o = p.shown := by
  have hwork : s.work = [] := by rw [work, hq]; rfl
  obtain ⟨hrunning, hidle, hstopping⟩ := h.at_empty_queue hq ho
  cases p with
  | off => exact hp.idle h ho
  | on f =>
    have hall := hp.2.resolve_left (by
      rintro ⟨⟨b, hb, -⟩, -⟩
      rw [hwork] at hb
      cases hb)
    have hboth : s.BothUp i ↔ f .klippy = true ∧ f .moonraker = true := by
      constructor
      · intro hup
        refine ⟨?_, ?_⟩
        all_goals
          obtain ⟨b, hb, hbi, hsvc, hcon⟩ := hup _
          obtain ⟨c, hc, hci, hsvc', hcon'⟩ := hall _
          rw [← hcon', h.slots.same_binding hc hb (hci.trans hbi.symm) (hsvc'.trans hsvc.symm)]
          exact hcon
      · rintro ⟨hklippy, hmoonraker⟩ svc
        obtain ⟨b, hb, hbi, hsvc, hcon⟩ := hall svc
        refine ⟨b, hb, hbi, hsvc, hcon.trans ?_⟩
        cases svc with
        | klippy => exact hklippy
        | moonraker => exact hmoonraker
    dsimp only [Phase.shown]
    split
    · next hup => exact hrunning.mpr (hboth.mpr hup)
    · next hup => exact (hp.up h ho).resolve_left fun hst => hup (hboth.mp (hrunning.mp hst))
  | stopping =>
    obtain ⟨b, hb, -⟩ := hp
    rw [hwork] at hb
    cases hb

/-! ## Calls -/

/-- A pending stop stays pending while blocks are only added. -/
theorem Local.stopPending {I : Set String} (hl : Local I s t) (hp : s.StopPending i) :
    t.StopPending i := by
  obtain ⟨b, hb, o, ho, hoi⟩ := hp
  exact ⟨b, hl.kept b hb, o, ho, (hl.id o).trans hoi⟩

/-- An id that is free is the id of a printer that is off. -/
theorem Shows.off_of_free (hp : s.Shows i p) (hfree : s.IdFree i) : p = .off := by
  obtain ⟨-, hbound, hposted⟩ := hfree
  cases p with
  | off => rfl
  | on f =>
    rcases hp.bound with ⟨b, hb, hbi⟩ | ⟨b, hb, o, ho, hoi⟩
    · exact absurd hbi (hbound b hb)
    · exact absurd hoi (hposted b hb o (object?_of_bound? ho))
  | stopping =>
    obtain ⟨o, ho, hoi⟩ := stopPending_iff.mp hp
    exact absurd hoi (hposted _ ho o rfl)

/-- `start` of the registered object, with a slot to pick.
SOURCE: KlipperInstance.kt:46-133 -/
theorem Shows.start (hp : s.Shows i p) (h : Coherent s) (ho : s.registered i = some o)
    (dirs : Dirs) (hfree : s.stateOf o = .idle → s.IdFree (s.idOf o))
    (hslot : s.stateOf o = .idle → dirs.directory → dirs.publicDirectory →
      pickSlot s.slots ≠ none) : (s.start o dirs).1.Shows i (p.next (.start dirs)) := by
  obtain ⟨-, rfl⟩ := h.indexed.registered ho
  have hl := Local.start (s := s) o dirs
  rcases start_cases s o dirs with ⟨hbusy, heq⟩ | ⟨hidle, hdirs, heq⟩ |
    ⟨hidle, hdir, hpub, hpick, -⟩ | ⟨k, hidle, hdir, hpub, -, heq⟩
  · -- the object is not idle: the call does nothing
    rw [heq]
    cases p with
    | off => exact absurd (hp.idle h ho) hbusy
    | on f => exact hp
    | stopping => exact hp
  · -- a directory is missing: `stop` at once
    obtain rfl := hp.off_of_free (hfree hidle)
    have hstarting : (s.notifyStateChanged o .starting).stateOf o = .starting :=
      (stateOf_notifyStateChanged s o o .starting).trans (if_pos rfl)
    rw [Phase.next, if_neg hdirs, heq]
    rw [heq] at hl
    obtain ⟨-, hwork, -⟩ := stop_up (.inr hstarting)
    refine ⟨.unbind o, ?_, o, rfl, hl.id o⟩
    rw [hwork]
    exact List.mem_append_right _ List.mem_cons_self
  · exact absurd hpick (hslot hidle hdir hpub)
  · obtain rfl := hp.off_of_free (hfree hidle)
    rw [Phase.next, if_pos ⟨hdir, hpub⟩]
    have hwork : (s.start o dirs).1.work = s.work ++ [.bind o (s.idOf o)] := by
      rw [heq, work_post]
      exact congrArg (· ++ _) (work_notifyStateChanged o .starting)
    refine ⟨fun hpending => ?_, .inl ⟨⟨.bind o (s.idOf o), ?_, o, rfl, hl.id o⟩, fun _ => rfl⟩⟩
    · obtain ⟨x, hx, hid⟩ := stopPending_iff.mp hpending
      rw [hl.id] at hid
      rw [hwork, List.mem_append, List.mem_singleton] at hx
      exact hp.2 _ (hx.resolve_right fun heq => by cases heq) x rfl hid
    · rw [hwork]
      exact List.mem_append_right _ List.mem_cons_self

/-- `stop` of an object that is up leaves a stop pending. -/
theorem stop_stopPending (hup : s.stateOf o = .running ∨ s.stateOf o = .starting) :
    (s.stop o).StopPending (s.idOf o) := by
  obtain ⟨-, hwork, -⟩ := stop_up hup
  refine ⟨.unbind o, ?_, o, rfl, (Local.stop (s := s) o).id o⟩
  rw [hwork]
  exact List.mem_append_right _ List.mem_cons_self

/-- `stop` of the registered object.
SOURCE: KlipperInstance.kt:135-140 -/
theorem Shows.stop (hp : s.Shows i p) (h : Coherent s) (ho : s.registered i = some o) :
    (s.stop o).Shows i (p.next .stop) := by
  cases p with
  | off =>
    have hidle := hp.idle h ho
    rw [stop_eq_self s o (by rw [hidle]; simp)]
    exact hp
  | on f =>
    have hup := hp.up h ho
    obtain ⟨-, rfl⟩ := h.indexed.registered ho
    exact stop_stopPending hup
  | stopping => exact (Local.stop (s := s) o).stopPending hp

/-! ## Reloads -/

/-- The autostart loop leaves a printer it does not start in its phase. -/
theorem Shows.autostartAll_other {dirs : String → Dirs} {rest : List Oid} (hp : s.Shows i p)
    (h : Coherent s) (hr : s.ReadyToStart dirs rest)
    (hno : ∀ x ∈ rest, s.idOf x = i → ¬((s.heap x).autostart ∧ s.stateOf x = .idle)) :
    (autostartAll dirs s rest).1.Shows i p := by
  induction rest generalizing s with
  | nil => exact hp
  | cons inst rest ih =>
    unfold Registry.autostartAll
    split
    · next hauto =>
      obtain ⟨t, hrun, hcoherent, hready⟩ := hr.next h hauto
      have hl := Local.start (s := s) inst (dirs (s.idOf inst))
      rw [hrun] at hl ⊢
      have hne : i ≠ s.idOf inst := fun hi => hno inst List.mem_cons_self hi.symm hauto
      refine ih (hp.agree h.slots (hl.agree hne)) hcoherent hready fun x hx hxi => ?_
      rw [hl.id] at hxi
      have hheap := hl.heap x (by rw [hxi]; exact hne)
      simp only at hheap
      rw [stateOf, hheap, ← stateOf]
      exact hno x (List.mem_cons_of_mem _ hx) hxi
    · exact ih hp h hr.tail fun x hx => hno x (List.mem_cons_of_mem _ hx)

/-- The autostart loop starts an idle object whose row autostarts.
SOURCE: KlipperInstance.kt:284-290 -/
theorem Shows.autostartAll {dirs : String → Dirs} {rest : List Oid} (hp : s.Shows i p)
    (h : Coherent s) (hr : s.ReadyToStart dirs rest) (ho : o ∈ rest) (hoi : s.idOf o = i)
    (hauto : (s.heap o).autostart ∧ s.stateOf o = .idle) :
    (autostartAll dirs s rest).1.Shows i (p.next (.start (dirs i))) := by
  induction rest generalizing s with
  | nil => cases ho
  | cons inst rest ih =>
    have hnodup := hr.nodup
    rw [List.map_cons, List.nodup_cons] at hnodup
    rcases List.mem_cons.mp ho with rfl | ho
    · -- its own round; the later rounds are about other ids
      unfold Registry.autostartAll
      rw [if_pos hauto]
      have hlive := hr.live o List.mem_cons_self
      obtain ⟨t, hrun, hcoherent, hready⟩ := hr.next h hauto
      have hl := Local.start (s := s) o (dirs (s.idOf o))
      have hstart := hp.start h (hoi ▸ hr.registered o List.mem_cons_self) (dirs (s.idOf o))
        (hr.startable o List.mem_cons_self hauto.1) fun hidle hdir hpub hpick => by
          rcases start_cases s o (dirs (s.idOf o)) with ⟨hbusy, -⟩ | ⟨-, hdirs, -⟩ |
            ⟨-, -, -, -, heq⟩ | ⟨k, -, -, -, hk, -⟩
          · exact hbusy hidle
          · exact hdirs ⟨hdir, hpub⟩
          · rw [hrun] at heq
            simp at heq
          · rw [hpick] at hk
            cases hk
      rw [hrun] at hl hstart ⊢
      rw [hoi] at hstart
      refine hstart.autostartAll_other hcoherent hready fun x hx hxi => ?_
      rw [hl.id] at hxi
      exact absurd (List.mem_map.mpr ⟨x, hx, hxi.trans hoi.symm⟩) hnodup.1
    · have hne : s.idOf o ≠ s.idOf inst := fun heq => hnodup.1 (List.mem_map.mpr ⟨o, ho, heq⟩)
      unfold Registry.autostartAll
      split
      · next hother =>
        obtain ⟨t, hrun, hcoherent, hready⟩ := hr.next h hother
        have hl := Local.start (s := s) inst (dirs (s.idOf inst))
        rw [hrun] at hl ⊢
        have hheap := hl.heap o hne
        simp only at hheap
        refine ih (hp.agree h.slots (hl.agree (hoi ▸ hne))) hcoherent hready ho
          ((hl.id o).trans hoi) ?_
        rw [stateOf, hheap, ← stateOf]
        exact hauto
      · exact ih hp h hr.tail ho hoi hauto

/-- The drop loop stops the object of an id that is up, has a slot and is not loaded.
SOURCE: KlipperInstance.kt:270-277 -/
theorem Staged.stopPending {loaded : List Oid} {s₁ s₂ : Registry} (hst : Staged s loaded s₁ s₂)
    (h : SlotInv s) (hmiss : i ∉ loaded.map s.idOf) (hup : s.UpWithSlot i) :
    (s₂.refresh loaded).StopPending i := by
  obtain ⟨y, hy, rfl, hst'⟩ := hup
  obtain ⟨k, hk⟩ := (mem_keys_iff_lookup y).mp hy
  have hlive := h.live_key y k hk
  have hid := hst.apart₁.id y hlive
  rw [stateOf, ← hst.apart₁.heap y hlive hmiss, ← stateOf] at hst'
  rw [← hst.apart₁.lookup y (by rw [hid]; exact hmiss)] at hk
  refine ⟨.unbind y, ?_, y, rfl, hst.id hlive⟩
  rw [work_refresh]
  exact hst.stopped y k hk (by rw [hid]; exact hmiss) hst'

/-- The drop loop leaves the other ids that are not loaded in their phase. -/
theorem Staged.shows {loaded : List Oid} {s₁ s₂ : Registry} (hst : Staged s loaded s₁ s₂)
    (h : Coherent s) (hmiss : i ∉ loaded.map s.idOf) (hup : ¬s.UpWithSlot i)
    (hp : s.Shows i p) : (s₂.refresh loaded).Shows i p := by
  have hbind : s₂.bindings = s.bindings := hst.apart₂.bindings.trans hst.apart₁.bindings
  cases p with
  | off =>
    refine ⟨fun b hb hbi => ?_, fun b hb x hx hxi => ?_⟩
    · have hb : b ∈ s.bindings := hbind ▸ hb
      exact hp.1 b hb ((hst.id (h.slots.live_bindings b hb)).symm.trans hbi)
    · rw [work_refresh] at hb
      rcases hst.posted b hb with hb | ⟨y, k, hk, rfl, hymiss, hyup⟩
      · rw [hst.work₁] at hb
        exact hp.2 b hb x hx ((hst.id (h.slots.live_work b hb x hx)).symm.trans hxi)
      · -- no key of the id is up
        obtain rfl : y = x := Option.some.inj hx
        rw [hst.apart₁.lookup y hymiss] at hk
        have hlive := h.slots.live_key y k hk
        have hyi : s.idOf y = i := (hst.id hlive).symm.trans hxi
        rw [stateOf, hst.apart₁.heap y hlive (by rw [hyi]; exact hmiss), ← stateOf] at hyup
        exact hup ⟨y, (mem_keys_iff_lookup y).mpr ⟨k, hk⟩, hyi, hyup⟩
  | on f =>
    obtain ⟨y, k, hk, hyi, hyup⟩ := h.slots.key_of_bound hp.1 hp.bound
    exact absurd ⟨y, (mem_keys_iff_lookup y).mpr ⟨k, hk⟩, hyi, hyup⟩ hup
  | stopping =>
    obtain ⟨x, hx, rfl⟩ := stopPending_iff.mp hp
    refine stopPending_iff.mpr ⟨x, ?_, hst.id (h.slots.live_work _ hx x rfl)⟩
    rw [work_refresh]
    exact hst.apart₂.kept _ (hst.work₁ ▸ hx)

/-- **A tidy reload.**
SOURCE: KlipperInstance.kt:249-291 -/
theorem Shows.reload (hp : s.Shows i p) (h : Coherent s) {rows : List Row}
    {dirs : String → Dirs} (hg : s.OrderlyReload rows) (ht : s.TidyReload rows dirs)
    (hnodup : (rows.map Row.id).Nodup) (db : Option (List Row)) (hash : Oid → Nat) :
    ((s.loadRows rows).1.onInstancesLoadedFromDB (s.loadRows rows).2 db hash dirs).1.Shows i
      ((s.inputOf i (.onInstancesLoadedFromDB rows db hash dirs)).elim p p.next) := by
  have hload := loadRows_spec s rows
  have hu := h.loaded hload
  have hpu := hp.agree h.slots (hload.agree h.indexed i)
  obtain ⟨s₁, s₂, hst, hrun, hcoherent, hready⟩ := h.reload_staged hg ht hnodup db hash
  have hlive : ∀ o ∈ (s.loadRows rows).2, o < (s.loadRows rows).1.created :=
    fun o ho => (hload.range o ho).2
  have hreg := hload.registered h.indexed i
  have hstate : (∀ w ∈ s.registered i, (s.loadRows rows).1.stateOf w = .idle) ↔
      ∀ w ∈ s.registered i, s.stateOf w = .idle := by
    refine forall₂_congr fun w hw => ?_
    rw [stateOf, hload.heap w (h.indexed.registered hw).1, ← stateOf]
  set u := (s.loadRows rows).1
  set loaded := (s.loadRows rows).2
  have hids : ∀ o ∈ loaded, (s₂.refresh loaded).idOf o = u.idOf o := fun o ho => hst.id (hlive o ho)
  rw [hrun]
  dsimp only [inputOf]
  by_cases hi : i ∈ rows.map Row.id
  · rw [if_pos hi]
    have hmem : i ∈ loaded.map u.idOf := hload.ids ▸ hi
    have hv := hpu.agree hu.slots (hst.agree hmem)
    -- whether an object of the id is started, told from the rows
    have hstarts : ∀ o ∈ loaded, u.idOf o = i →
        (((s₂.refresh loaded).heap o).autostart ∧ (s₂.refresh loaded).stateOf o = .idle ↔
          (u.heap o).autostart ∧ ∀ w ∈ s.registered i, s.stateOf w = .idle) := by
      intro o ho hoi
      obtain ⟨hauto, hidle⟩ := hst.starts_iff hlive ho
      rw [hoi, hreg, hstate] at hidle
      exact and_congr hauto hidle
    by_cases hstart : s.StartsRow i rows
    · rw [if_pos hstart]
      obtain ⟨row, hrow, hrowid, hauto, hidle⟩ := hstart
      obtain ⟨o, ho, hobject⟩ : ∃ o ∈ loaded, u.heap o = { toRow := row } := by
        have hmap : ({ toRow := row } : KlipperInstance) ∈ loaded.map u.heap := by
          rw [hload.objects]
          exact List.mem_map_of_mem hrow
        exact List.mem_map.mp hmap
      have hoi : u.idOf o = i := by rw [idOf, hobject]; exact hrowid
      refine hv.autostartAll hcoherent hready ho ((hids o ho).trans hoi)
        ((hstarts o ho hoi).mpr ⟨?_, hidle⟩)
      rw [hobject]
      exact hauto
    · rw [if_neg hstart]
      refine hv.autostartAll_other hcoherent hready fun o ho hoi hauto => ?_
      rw [hids o ho] at hoi
      obtain ⟨hauto, hidle⟩ := (hstarts o ho hoi).mp hauto
      obtain ⟨row, hrow, hobject⟩ := hload.fresh ho
      refine hstart ⟨row, hrow, ?_, ?_, hidle⟩
      · rw [idOf, hobject] at hoi
        exact hoi
      · rw [hobject] at hauto
        exact hauto
  · rw [if_neg hi]
    have hmiss : i ∉ loaded.map u.idOf := hload.ids ▸ hi
    have hother : ∀ x ∈ loaded, (s₂.refresh loaded).idOf x = i →
        ¬(((s₂.refresh loaded).heap x).autostart ∧ (s₂.refresh loaded).stateOf x = .idle) := by
      intro x hx hxi
      rw [hids x hx] at hxi
      exact absurd (List.mem_map.mpr ⟨x, hx, hxi⟩) hmiss
    have hupiff : u.UpWithSlot i ↔ s.UpWithSlot i := by
      have hslots : u.slots = s.slots := by rw [hload.eq]
      unfold UpWithSlot
      rw [hslots]
      refine exists_congr fun y => and_congr_right fun hy => ?_
      obtain ⟨k, hk⟩ := (mem_keys_iff_lookup y).mp hy
      have hheap := hload.heap y (h.slots.live_key y k hk)
      rw [idOf, stateOf, hheap, ← idOf, ← stateOf]
    by_cases hup : s.UpWithSlot i
    · rw [if_pos hup]
      have hpending := hst.stopPending hu.slots hmiss (hupiff.mpr hup)
      have hv : (s₂.refresh loaded).Shows i (p.next .halted) := by
        cases p with
        | off => exact hpending
        | on f => exact hpending
        | stopping => exact hpending
      exact hv.autostartAll_other hcoherent hready hother
    · rw [if_neg hup]
      have hv := hst.shows hu hmiss (fun hu' => hup (hupiff.mp hu')) hpu
      exact hv.autostartAll_other hcoherent hready hother

/-! ## The posted blocks -/

/-- A block about another id, or about the servers, is no input. -/
theorem not_lastOf {b : Block} {q : List Block} (hb : ∀ o ∈ b.object?, s.idOf o ≠ i) :
    ¬s.LastOf i b q := by
  rintro ⟨⟨o, ho, hoi⟩, -⟩
  exact hb o ho hoi

/-- The bind block of a printer leaves it in its phase: the bindings are not yet connected.
SOURCE: KlipperInstance.kt:93-132 -/
theorem Shows.runBind (hp : s.Shows i p) (h : Coherent s) {x : Oid} {n : String}
    {q : List Block} (hq : s.queue = .bind x n :: q) :
    (({ s with queue := q } : Registry).runBind x n).Shows i
      ((if s.LastOf i (.bind x n) q then some Input.settled else none).elim p p.next) := by
  have hr := h.slots.ranBind hq
  by_cases hx : s.idOf x = i
  · subst hx
    cases p with
    | off => exact absurd rfl (hp.2 _ hr.head x rfl)
    | on f =>
      have hv : (({ s with queue := q } : Registry).runBind x n).Shows (s.idOf x) (.on f) := by
        refine ⟨hr.stopPending.not.mpr hp.1, .inr fun svc => ?_⟩
        rcases hp.2 with ⟨-, hf⟩ | hall
        · obtain ⟨b, hb, hown, hsvc, hcon⟩ := hr.bound svc
          exact ⟨b, hb, by rw [hr.id, hown], hsvc, hcon.trans (hf svc).symm⟩
        · obtain ⟨b, hb, hbi, -⟩ := hall .klippy
          exact absurd hbi (h.slots.bind_first _ hr.head x rfl b hb)
      split_ifs
      · exact hv
      · exact hv
    | stopping =>
      -- the unbind block is still behind it
      obtain ⟨y, hy, hyx⟩ := stopPending_iff.mp hp
      have hmem := (mem_work.mp hy).1
      rw [hq] at hmem
      have hlast : ¬s.LastOf (s.idOf x) (.bind x n) q := fun hlast =>
        hlast.2 _ ((List.mem_cons.mp hmem).resolve_left fun heq => by cases heq) y rfl hyx
      rw [if_neg hlast]
      exact hr.stopPending.mpr hp
  · rw [if_neg (not_lastOf fun o ho => by cases ho; exact hx)]
    exact hp.agree h.slots (hr.agree fun heq => hx heq.symm)

/-- The unbind block of a printer: when it is the last, the printer is off.
SOURCE: KlipperInstance.kt:140-163 -/
theorem Shows.runUnbind (hp : s.Shows i p) (h : Coherent s) {x : Oid} {q : List Block}
    (hq : s.queue = .unbind x :: q) :
    (({ s with queue := q } : Registry).runUnbind x).Shows i
      ((if s.LastOf i (.unbind x) q then some Input.settled else none).elim p p.next) := by
  have hr := h.slots.ranUnbind hq
  have hpop := work_pop hq rfl
  by_cases hx : s.idOf x = i
  · subst hx
    cases p with
    | off => exact absurd rfl (hp.2 _ hr.head x rfl)
    | on f => exact absurd (stopPending_of_unbind hr.head) hp.1
    | stopping =>
      set t := ({ s with queue := q } : Registry).runUnbind x
      have hwork : ∀ b, b ∈ t.work ↔ b ∈ q ∧ b.object?.isSome := by
        have htail : t.work = ({ s with queue := q } : Registry).work :=
          (List.cons.inj (hr.work.symm.trans hpop)).2
        intro b
        rw [htail]
        exact mem_work
      by_cases hlast : s.LastOf (s.idOf x) (.unbind x) q
      · rw [if_pos hlast]
        refine ⟨fun b hb => ?_, fun b hb o ho => ?_⟩
        · rw [hr.id]
          exact hr.gone b hb
        · rw [hr.id]
          exact hlast.2 b ((hwork b).mp hb).1 o ho
      · rw [if_neg hlast]
        -- another block of the id is queued, and it is not a bind block
        obtain ⟨b, hb, o, ho, hoi⟩ : ∃ b ∈ q, ∃ o ∈ b.object?, s.idOf o = s.idOf x := by
          by_contra hnone
          refine hlast ⟨⟨x, rfl, rfl⟩, fun b hb o ho hoi => hnone ⟨b, hb, o, ho, hoi⟩⟩
        have hmem : b ∈ t.work := (hwork b).mpr ⟨hb, Option.isSome_of_mem ho⟩
        refine ⟨b, hmem, o, ?_, (hr.id o).trans hoi⟩
        cases b with
        | bind y n => exact absurd hoi (hr.no_bind h.slots hmem ho)
        | unbind y => exact ho
        | stopServers => cases ho
        | bindServers => cases ho
  · rw [if_neg (not_lastOf fun o ho => by cases ho; exact hx)]
    exact hp.agree h.slots (hr.agree h.conns (h.slots.live_work _ hr.head x rfl)
      fun heq => hx heq.symm)

/-- **A posted block.** -/
theorem Shows.runBlock (hp : s.Shows i p) (h : Coherent s) {b : Block} {q : List Block}
    (hq : s.queue = b :: q) : (({ s with queue := q } : Registry).runBlock b).Shows i
      ((s.inputOf i .runPosted).elim p p.next) := by
  simp only [inputOf, hq]
  cases b with
  | bind x n => exact hp.runBind h hq
  | unbind x => exact hp.runUnbind h hq
  | stopServers =>
    rw [if_neg (not_lastOf fun o ho => by cases ho)]
    have hpop := h.pop hq rfl
    exact (hp.agree h.slots (agree_pop hq rfl i)).agree hpop.slots
      ((stopServers_same _ hpop.slots.key_active).agree i)
  | bindServers =>
    rw [if_neg (not_lastOf fun o ho => by cases ho)]
    have hpop := h.pop hq rfl
    exact (hp.agree h.slots (agree_pop hq rfl i)).agree hpop.slots
      ((runBindServers_same _).agree i)

/-! ## The callbacks -/

/-- A service of a printer is connected.
SOURCE: KlipperInstance.kt:99-104, 118-123 -/
theorem Shows.onServiceConnected (hp : s.Shows i p) (h : Coherent s) {b : Binding}
    (hb : b ∈ s.bindings) (hbi : s.idOf b.owner = i) :
    (s.onServiceConnected b).Shows i (p.next (.connected b.svc)) := by
  have hc := Called.onServiceConnected (s := s) b
  cases p with
  | off => exact absurd hbi (hp.1 b hb)
  | stopping => exact hc.stopPending.mpr hp
  | on f =>
    refine ⟨hc.stopPending.not.mpr hp.1, .inr fun svc => ?_⟩
    rcases hp.2 with ⟨⟨c, hcm, o, ho, hoi⟩, -⟩ | hall
    · exact absurd (hbi.trans hoi.symm) (h.slots.bind_first c hcm o ho b hb)
    · obtain ⟨c, hcm, hci, hsvc, hcon⟩ := hall svc
      obtain ⟨d, hd, hown, hdsvc, hdcon⟩ := hc.mem_bindings' hcm
      refine ⟨d, hd, by rw [hc.id, hown]; exact hci, hdsvc.trans hsvc, ?_⟩
      rw [hdcon]
      by_cases hsb : svc = b.svc
      · have hcb : c = b := h.slots.same_binding hcm hb (hci.trans hbi.symm) (hsvc.trans hsb)
        rw [if_pos (by rw [hcb]), hsb, Function.update_self]
      · have hcb : c.conn ≠ b.conn := fun heq =>
          hsb (hsvc.symm.trans (congrArg Binding.svc (h.conns.eq hcm hb heq)))
        rw [if_neg hcb, Function.update_of_ne hsb, hcon]

/-- A service of a printer that is about to be unbound is lost.
SOURCE: KlipperInstance.kt:106-108, 125-127 -/
theorem Shows.onServiceDisconnected (hp : s.Shows i p) {b : Binding} (hb : b ∈ s.bindings)
    (hbi : s.idOf b.owner = i) (hpending : s.StopPending i) :
    (s.onServiceDisconnected b).Shows i (p.next (.disconnected b.svc)) := by
  cases p with
  | off => exact absurd hbi (hp.1 b hb)
  | on f => exact absurd hpending hp.1
  | stopping => exact (Called.onServiceDisconnected b).stopPending.mpr hp

/-! ## Runs -/

/-- **One orderly and tidy step** makes of a printer what its input does. -/
theorem Shows.step {a : Action} (hp : s.Shows i p) (h : Coherent s) (hg : s.Truthful a)
    (hs : step s a = some t) : t.Shows i ((s.inputOf i a).elim p p.next) := by
  obtain ⟨horderly, htidy⟩ := hg
  unfold Registry.step at hs
  split at hs
  · cases hs
  cases a with
  | start o dirs =>
    simp only [Option.ite_none_right_eq_some, Option.some.injEq] at hs
    obtain ⟨hlt, rfl⟩ := hs
    dsimp only [inputOf]
    by_cases ho : s.registered i = some o
    · rw [if_pos ho]
      exact hp.start h ho dirs horderly fun hidle hdir hpub =>
        pickSlot_ne_none ((htidy hidle).2 ⟨hdir, hpub⟩)
    · rw [if_neg ho]
      by_cases hidle : s.stateOf o = .idle
      · have hne : i ≠ s.idOf o := fun heq => ho (heq ▸ (htidy hidle).1)
        exact hp.agree h.slots ((Local.start (s := s) o dirs).agree hne)
      · rcases start_cases s o dirs with ⟨-, heq⟩ | ⟨hi, -⟩ | ⟨hi, -⟩ | ⟨k, hi, -⟩
        · rw [heq]
          exact hp
        · exact absurd hi hidle
        · exact absurd hi hidle
        · exact absurd hi hidle
  | stop o =>
    simp only [Option.ite_none_right_eq_some, Option.some.injEq] at hs
    obtain ⟨hlt, rfl⟩ := hs
    dsimp only [inputOf]
    by_cases ho : s.registered i = some o
    · rw [if_pos ho]
      exact hp.stop h ho
    · rw [if_neg ho]
      by_cases hup : s.stateOf o = .running ∨ s.stateOf o = .starting
      · by_cases hoi : s.idOf o = i
        · rw [if_pos ⟨hoi, hup⟩]
          have hpending := stop_stopPending hup
          rw [hoi] at hpending
          cases p with
          | off => exact hpending
          | on f => exact hpending
          | stopping => exact hpending
        · rw [if_neg fun hboth => hoi hboth.1]
          exact hp.agree h.slots ((Local.stop (s := s) o).agree fun heq => hoi heq.symm)
      · rw [if_neg fun hboth => hup hboth.2, stop_eq_self s o hup]
        exact hp
  | onInstancesLoadedFromDB rows db hash dirs =>
    simp only [Option.ite_none_right_eq_some, Option.some.injEq] at hs
    obtain ⟨hnodup, rfl⟩ := hs
    exact hp.reload h horderly htidy hnodup db hash
  | runPosted =>
    cases hq : s.queue with
    | nil => simp [hq] at hs
    | cons b q =>
      simp only [hq, Option.some.injEq] at hs
      subst hs
      exact hp.runBlock h hq
  | onServiceConnected c =>
    obtain ⟨b, hb, rfl⟩ := Option.map_eq_some_iff.mp hs
    have hmem : b ∈ s.bindings := List.mem_of_find?_eq_some hb
    simp only [inputOf, hb, Option.bind_some]
    split
    · next hbi => exact hp.onServiceConnected h hmem hbi
    · next hbi =>
      exact hp.agree h.slots ((Called.onServiceConnected b).agree h hmem fun heq => hbi heq.symm)
  | onServiceDisconnected c =>
    obtain ⟨b, hb, rfl⟩ := Option.map_eq_some_iff.mp hs
    have hmem : b ∈ s.bindings := List.mem_of_find?_eq_some hb
    simp only [inputOf, hb, Option.bind_some]
    split
    · next hbi => exact hp.onServiceDisconnected hmem hbi (hbi ▸ htidy b hb)
    · next hbi =>
      exact hp.agree h.slots
        ((Called.onServiceDisconnected b).agree h hmem fun heq => hbi heq.symm)

/-- **A run** makes of a printer what its history does. -/
theorem Shows.run {acts : List Action} (hp : s.Shows i p) (h : Coherent s)
    (hrun : run (restrict Registry.step Truthful) s acts = some t) :
    Coherent t ∧ t.Shows i ((s.history i acts).foldl Phase.next p) := by
  induction acts generalizing s p with
  | nil =>
    rw [run_nil, Option.some.injEq] at hrun
    subst hrun
    exact ⟨h, hp⟩
  | cons a acts ih =>
    obtain ⟨u, hu, hrest⟩ := run_cons_eq_some.mp hrun
    obtain ⟨hg, hs⟩ := restrict_eq_some.mp hu
    have hnext := ih (hp.step h hg hs) (hg.step h hs) hrest
    rw [history, hs, List.foldl_append]
    cases hin : s.inputOf i a with
    | none =>
      rw [hin] at hnext
      exact hnext
    | some input =>
      rw [hin] at hnext
      exact hnext

/-- A reload that keeps the row is nothing to the printer. -/
theorem KeepsRow.inputOf {rows : List Row} (hk : s.KeepsRow i rows) (db : Option (List Row))
    (hash : Oid → Nat) (dirs : String → Dirs) :
    s.inputOf i (.onInstancesLoadedFromDB rows db hash dirs) = none := by
  dsimp only [Registry.inputOf]
  rw [if_pos hk.1, if_neg hk.2]

/-- **Reload coherence.** In a run of orderly and tidy steps, whenever the queue is empty,
the object the registry answers for an id is running just when both services of the id are
bound and connected, idle just when the id has no binding, and never stopping. And a reload
that keeps the row of an id without starting its printer may be inserted anywhere: if after it
the same happens to the printer as without it, the registry answers the same state of it at
the end, the queue being empty.
SOURCE: KlipperInstance.kt:249-291 -/
theorem reload_coherent (i : String) :
    (∀ acts s o, run (restrict step Truthful) empty acts = some s → s.queue = [] →
      s.registered i = some o → ∀ db, (s.getInstance i db).2 = some o ∧
        (s.stateOf o = .running ↔ s.BothUp i) ∧
        (s.stateOf o = .idle ↔ ∀ b ∈ s.bindings, s.idOf b.owner ≠ i) ∧
        s.stateOf o ≠ .stopping) ∧
    ∀ acts r rows db hash dirs r', run (restrict step Truthful) empty acts = some r →
      r.KeepsRow i rows →
      restrict step Truthful r (.onInstancesLoadedFromDB rows db hash dirs) = some r' →
      ∀ acts₁ acts₂ s t o₁ o₂, run (restrict step Truthful) r acts₁ = some s →
        run (restrict step Truthful) r' acts₂ = some t →
        r'.history i acts₂ = r.history i acts₁ → s.queue = [] → t.queue = [] →
        s.registered i = some o₁ → t.registered i = some o₂ → t.stateOf o₂ = s.stateOf o₁ := by
  refine ⟨fun acts s o hrun hq ho db => ?_, ?_⟩
  · have h := coherent_of_run hrun
    refine ⟨?_, h.at_empty_queue hq ho⟩
    rcases (getInstance_looked h.indexed i db).result with hres | ⟨hnone, -⟩
    · rw [hres, ho]
    · rw [ho] at hnone
      cases hnone
  · intro acts r rows db hash dirs r' hrun hkeep hreload acts₁ acts₂ s t o₁ o₂ hs ht hsame hqs hqt
      ho₁ ho₂
    have hoff : empty.Shows i .off :=
      ⟨fun b hb => (List.not_mem_nil hb).elim, fun b hb => (List.not_mem_nil hb).elim⟩
    obtain ⟨h, hp⟩ := hoff.run coherent_empty hrun
    obtain ⟨hg, hstep⟩ := restrict_eq_some.mp hreload
    -- the reload leaves the phase, so both runs start from the same
    have hp' := hp.step h hg hstep
    rw [hkeep.inputOf] at hp'
    obtain ⟨hcs, hps⟩ := hp.run h hs
    obtain ⟨hct, hpt⟩ := hp'.run (hg.step h hstep) ht
    rw [hsame] at hpt
    exact (hpt.shown hct hqt ho₂).trans (hps.shown hcs hqs ho₁).symm

/-- A printer comes up. -/
def comingUp : List Action :=
  [reloadOf [⟨"A", "a", "PRINTER", false⟩], .runPosted, startOf 0, .runPosted,
    .onServiceConnected 0, .onServiceConnected 1, .runPosted]

/-- The running printer is stopped and started again, and one of its services is connected. -/
def stopAndStart (o : Oid) : List Action :=
  [.stop o, .runPosted, .runPosted, startOf o, .runPosted, .onServiceConnected 3]

/-- The rows of the running printer are loaded again before it is stopped and started: the
second object says what the first says without the reload. -/
theorem reload_coherent_restart :
    ∃ r r' s t, run (restrict step Truthful) empty comingUp = some r ∧
      restrict step Truthful r (reloadOf [⟨"A", "a", "PRINTER", false⟩]) = some r' ∧
      run (restrict step Truthful) r (stopAndStart 0) = some s ∧
      run (restrict step Truthful) r' (.runPosted :: stopAndStart 1) = some t ∧
      (∀ db, (r.getInstance "A" db).2 = some 0) ∧ (r.stateOf 0 = .running ↔ r.BothUp "A") ∧
      s.stateOf 0 = .starting ∧ t.stateOf 1 = s.stateOf 0 := by
  have hall : (run (restrict step Truthful) empty comingUp).any (fun r => r.queue = [] ∧
      r.registered "A" = some 0 ∧ r.KeepsRow "A" [⟨"A", "a", "PRINTER", false⟩] ∧
      (restrict step Truthful r (reloadOf [⟨"A", "a", "PRINTER", false⟩])).any fun r' =>
        (run (restrict step Truthful) r (stopAndStart 0)).any fun s =>
          (run (restrict step Truthful) r' (.runPosted :: stopAndStart 1)).any fun t =>
            r'.history "A" (.runPosted :: stopAndStart 1) = r.history "A" (stopAndStart 0) ∧
              s.queue = [] ∧ t.queue = [] ∧ s.registered "A" = some 0 ∧
              t.registered "A" = some 1 ∧ s.stateOf 0 = .starting) = true := by
    decide +kernel
  obtain ⟨r, hr, hall⟩ := (Option.any_eq_true _ _).mp hall
  obtain ⟨hq, ho, hkeep, hall⟩ := of_decide_eq_true hall
  obtain ⟨r', hr', hall⟩ := (Option.any_eq_true _ _).mp hall
  obtain ⟨s, hs, hall⟩ := (Option.any_eq_true _ _).mp hall
  obtain ⟨t, ht, hall⟩ := (Option.any_eq_true _ _).mp hall
  obtain ⟨hsame, hqs, hqt, hos, hot, hlast⟩ := of_decide_eq_true hall
  obtain ⟨hanswers, hinserted⟩ := reload_coherent "A"
  refine ⟨r, r', s, t, hr, hr', hs, ht, fun db => (hanswers _ r 0 hr hq ho db).1,
    (hanswers _ r 0 hr hq ho none).2.1, hlast, ?_⟩
  exact hinserted _ r _ _ _ _ r' hr hkeep hr' _ _ s t 0 1 hs ht hsame hqs hqt hos hot

/-- A running printer is stopped, and loaded again before the posted block runs. -/
def stoppedActions : List Action :=
  [reloadOf [⟨"A", "a", "PRINTER", false⟩], .runPosted, startOf 0, .runPosted,
    .onServiceConnected 0, .onServiceConnected 1, .runPosted, .stop 0,
    reloadOf [⟨"A", "a", "PRINTER", false⟩], .runPosted, .runPosted, .runPosted]

/-- In this run the registered object stays in `STOPPING`: the posted block ends the old
object.
SOURCE: KlipperInstance.kt:140, 254-262 -/
theorem reload_not_coherent :
    ¬∀ acts s, run step empty acts = some s → s.queue = [] →
      ∀ i o, s.registered i = some o →
        (s.stateOf o = .running ↔ s.BothUp i) ∧
          (s.stateOf o = .idle ↔ ∀ b ∈ s.bindings, s.idOf b.owner ≠ i) ∧
          s.stateOf o ≠ .stopping := by
  intro h
  have hrun : (run step empty stoppedActions).any (fun s =>
      s.queue = [] ∧ s.registered "A" = some 1 ∧ s.stateOf 1 = .stopping) = true := by
    decide +kernel
  obtain ⟨s, hs, hlast⟩ := (Option.any_eq_true _ _).mp hrun
  obtain ⟨hq, ho, hst⟩ := of_decide_eq_true hlast
  exact (h _ s hs hq "A" 1 ho).2.2 hst

end Registry

end Cream.Model
