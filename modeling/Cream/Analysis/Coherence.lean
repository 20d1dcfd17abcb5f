import Cream.Analysis.SlotExclusivity

/-!
# What the registered object knows

The object filed under an id is what the rest of the app asks for the printer's state.
`Steady` says, state by state, how that object, the queue and the bindings of its id fit
together: an idle object is one whose id is free or about to be unbound, a starting one
waits for its bind block or for its connections, a running one has both its services up
or its unbind block queued, and a stopping one has its unbind block queued. `Coherent` is
this for every id, over the ledger of `Cream.Analysis.SlotLedger`.

A step about one id leaves the others alone (`Agree`), so each operation is looked at for
its own id only.
-/

set_option autoImplicit false

namespace Cream.Model

open Cream.Library.Transition

namespace Registry

variable {s t : Registry} {i : String} {o : Oid}

/-! ## The states -/

/-- Both services of the id are bound and connected. -/
def BothUp (s : Registry) (i : String) : Prop :=
  ∀ svc, ∃ b ∈ s.bindings, s.idOf b.owner = i ∧ b.svc = svc ∧ b.connected = true

/-- What is bound for the id, or about to be, is about to be unbound. -/
def Settling (s : Registry) (i : String) : Prop :=
  (∃ b ∈ s.bindings, s.idOf b.owner = i) ∨ (∃ b ∈ s.work, ∃ o ∈ b.bound?, s.idOf o = i) →
    s.StopPending i

/-- The object has nothing bound or about to be bound, and its id settles. -/
structure AtRest (s : Registry) (o : Oid) : Prop where
  settling : s.Settling (s.idOf o)
  unbound : ∀ b ∈ s.bindings, b.owner ≠ o
  unposted : ∀ b ∈ s.work, o ∉ b.bound?
  down : ∀ svc, ((s.heap o).link svc).connected = false

/-- The object waits for its bind block, or it has bound both services and its flags say
which of them are connected, not both. -/
structure ComingUp (s : Registry) (o : Oid) : Prop where
  unstopped : ¬s.StopPending (s.idOf o)
  progress : ((∃ b ∈ s.work, o ∈ b.bound?) ∧ ∀ svc, ((s.heap o).link svc).connected = false) ∨
    ((∀ svc, ∃ b ∈ s.bindings, b.owner = o ∧ b.svc = svc ∧
      b.connected = ((s.heap o).link svc).connected) ∧
        ∃ svc, ((s.heap o).link svc).connected = false)

/-- The object holds both connections, and both services are up unless its unbind block
is queued. -/
structure Up (s : Registry) (o : Oid) : Prop where
  holds : ∀ svc, ((s.heap o).link svc).connection.isSome
  up : .unbind o ∈ s.work ∨ (¬s.StopPending (s.idOf o) ∧ s.BothUp (s.idOf o))

/-- The registered object's state says what goes on with its id. -/
structure Steady (s : Registry) (o : Oid) : Prop where
  holds : ∀ b ∈ s.bindings, b.owner = o → ∀ svc, ((s.heap o).link svc).connection.isSome
  idle : s.stateOf o = .idle → s.AtRest o
  starting : s.stateOf o = .starting → s.ComingUp o
  running : s.stateOf o = .running → s.Up o
  stopping : s.stateOf o = .stopping → .unbind o ∈ s.work

/-- Every `ServiceConnection` is bound once, and an object holds connections of its own id
only. -/
structure Connections (s : Registry) : Prop where
  nodup : (s.bindings.map Binding.conn).Nodup
  below : ∀ b ∈ s.bindings, b.conn < s.nextConn
  held : ∀ x < s.created, ∀ svc c, ((s.heap x).link svc).connection = some c →
    c < s.nextConn ∧ ∀ b ∈ s.bindings, b.conn = c → s.idOf b.owner = s.idOf x

/-- The invariant of the registry as the rest of the app sees it. -/
structure Coherent (s : Registry) : Prop where
  slots : SlotInv s
  indexed : Indexed s
  conns : Connections s
  steady : ∀ i o, s.registered i = some o → s.Steady o
  settling : ∀ i, s.registered i = none → s.Settling i

/-- An empty registry is coherent. -/
theorem coherent_empty : Coherent empty where
  slots := slotInv_empty
  indexed := ⟨fun o ho => (List.not_mem_nil ho).elim, fun i o ho => by cases ho⟩
  conns := ⟨List.nodup_nil, fun b hb => (List.not_mem_nil hb).elim, fun x _ svc c hc => by cases hc⟩
  steady i o ho := by cases ho
  settling i _ := by
    rintro (⟨b, hb, -⟩ | ⟨b, hb, -⟩)
    · exact (List.not_mem_nil hb).elim
    · exact (List.not_mem_nil hb).elim

/-! ## Reading the invariant -/

/-- A queued unbind block is a pending stop of its id. -/
theorem stopPending_of_unbind (h : .unbind o ∈ s.work) : s.StopPending (s.idOf o) :=
  ⟨_, h, o, rfl, rfl⟩

/-- A stop of an id is pending when an unbind block about it is queued. -/
theorem stopPending_iff : s.StopPending i ↔ ∃ o, .unbind o ∈ s.work ∧ s.idOf o = i := by
  constructor
  · rintro ⟨b, hb, o, ho, hid⟩
    cases b with
    | unbind x =>
      simp only [Block.unbound?, Option.mem_some] at ho
      subst ho
      exact ⟨_, hb, hid⟩
    | bind x n => cases ho
    | stopServers => cases ho
    | bindServers => cases ho
  · rintro ⟨o, ho, rfl⟩
    exact stopPending_of_unbind ho

/-- An id has at most one binding of each service. -/
theorem SlotInv.same_binding (h : SlotInv s) {b c : Binding} (hb : b ∈ s.bindings)
    (hc : c ∈ s.bindings) (hid : s.idOf b.owner = s.idOf c.owner) (hsvc : b.svc = c.svc) :
    b = c := by
  have hle := h.single (s.idOf c.owner) c.svc
  rw [List.countP_eq_length_filter] at hle
  have hmem : ∀ d ∈ s.bindings, s.idOf d.owner = s.idOf c.owner → d.svc = c.svc →
      d ∈ s.bindings.filter fun d => s.idOf d.owner = s.idOf c.owner ∧ d.svc = c.svc := by
    intro d hd hdi hds
    simp [hd, hdi, hds]
  have hb' := hmem b hb hid hsvc
  have hc' := hmem c hc rfl rfl
  match hl : s.bindings.filter fun d => s.idOf d.owner = s.idOf c.owner ∧ d.svc = c.svc with
  | [] =>
    rw [hl] at hb'
    cases hb'
  | [d] =>
    rw [hl, List.mem_singleton] at hb' hc'
    rw [hb', hc']
  | _ :: _ :: _ =>
    rw [hl] at hle
    simp at hle

/-- With a bind block of the id queued nothing of it is bound yet. -/
theorem SlotInv.not_bound_of_bind (h : SlotInv s) {b : Block} (hb : b ∈ s.work)
    (ho : o ∈ b.bound?) {c : Binding} (hc : c ∈ s.bindings) : s.idOf c.owner ≠ s.idOf o :=
  h.bind_first b hb o ho c hc

/-- A starting object's bindings are all its id has. -/
theorem ComingUp.owner (h : SlotInv s) (hup : s.ComingUp o) {b : Binding} (hb : b ∈ s.bindings)
    (hid : s.idOf b.owner = s.idOf o) : b.owner = o ∧
      b.connected = ((s.heap o).link b.svc).connected ∧
      (∀ svc, ∃ b ∈ s.bindings, b.owner = o ∧ b.svc = svc ∧
        b.connected = ((s.heap o).link svc).connected) ∧
      ∃ svc, ((s.heap o).link svc).connected = false := by
  rcases hup.progress with ⟨⟨c, hc, ho⟩, -⟩ | ⟨hbound, hdown⟩
  · exact absurd hid (h.not_bound_of_bind hc ho hb)
  · obtain ⟨c, hc, hown, hsvc, hcon⟩ := hbound b.svc
    have heq : c = b := h.same_binding hc hb (by rw [hown, hid]) hsvc
    subst heq
    exact ⟨hown, hcon, hbound, hdown⟩

/-- **What the app sees at an empty queue.** -/
theorem Coherent.at_empty_queue (h : Coherent s) (hq : s.queue = [])
    (ho : s.registered i = some o) :
    (s.stateOf o = .running ↔ s.BothUp i) ∧
      (s.stateOf o = .idle ↔ ∀ b ∈ s.bindings, s.idOf b.owner ≠ i) ∧
      s.stateOf o ≠ .stopping := by
  obtain ⟨-, rfl⟩ := h.indexed.registered ho
  have hwork : s.work = [] := by rw [work, hq]; rfl
  have hpending : ¬s.StopPending (s.idOf o) := by
    rintro ⟨b, hb, -⟩
    rw [hwork] at hb
    cases hb
  have hstill : ∀ b : Block, b ∉ s.work := by
    rw [hwork]
    exact fun b => List.not_mem_nil
  have hup : s.BothUp (s.idOf o) → ∃ b ∈ s.bindings, s.idOf b.owner = s.idOf o :=
    fun hb => (hb .klippy).imp fun b hb => ⟨hb.1, hb.2.1⟩
  have hsteady := h.steady _ o ho
  cases hst : s.stateOf o with
  | idle =>
    have hnone : ∀ b ∈ s.bindings, s.idOf b.owner ≠ s.idOf o := fun b hb hid =>
      hpending ((hsteady.idle hst).settling (.inl ⟨b, hb, hid⟩))
    refine ⟨⟨fun heq => (by cases heq), fun hboth => ?_⟩, ⟨fun _ => hnone, fun _ => rfl⟩,
      fun heq => by cases heq⟩
    obtain ⟨b, hb, hid⟩ := hup hboth
    exact absurd hid (hnone b hb)
  | starting =>
    obtain ⟨hbound, svc, hdown⟩ := (hsteady.starting hst).progress.resolve_left
      (by rintro ⟨⟨b, hb, -⟩, -⟩; exact hstill b hb)
    refine ⟨⟨fun heq => (by cases heq), fun hboth => ?_⟩, ⟨fun heq => (by cases heq), fun hnone => ?_⟩,
      fun heq => by cases heq⟩
    · obtain ⟨b, hb, hid, hsvc, hcon⟩ := hboth svc
      obtain ⟨-, hflag, -⟩ := (hsteady.starting hst).owner h.slots hb hid
      rw [hcon, hsvc, hdown] at hflag
      cases hflag
    · obtain ⟨b, hb, hown, -⟩ := hbound svc
      exact absurd (congrArg s.idOf hown) (hnone b hb)
  | running =>
    have hboth : s.BothUp (s.idOf o) :=
      ((hsteady.running hst).up.resolve_left (hstill _)).2
    refine ⟨⟨fun _ => hboth, fun _ => rfl⟩, ⟨fun heq => (by cases heq), fun hnone => ?_⟩,
      fun heq => by cases heq⟩
    obtain ⟨b, hb, hid⟩ := hup hboth
    exact absurd hid (hnone b hb)
  | stopping => exact absurd (hsteady.stopping hst) (hstill _)

/-! ## Steps about other ids -/

/-- The queued blocks and the bindings of the id are the same. -/
structure Agree (i : String) (s t : Registry) : Prop where
  id : ∀ x < s.created, t.idOf x = s.idOf x
  work : ∀ b ∈ t.work, ∀ o ∈ b.object?, t.idOf o = i → b ∈ s.work
  kept : ∀ b ∈ s.work, ∀ o ∈ b.object?, s.idOf o = i → b ∈ t.work
  bound : ∀ b ∈ t.bindings, t.idOf b.owner = i → b ∈ s.bindings
  bound' : ∀ b ∈ s.bindings, s.idOf b.owner = i → b ∈ t.bindings

/-- Where the blocks of the id are the same, so are its pending stops. -/
theorem Agree.stopPending (ha : Agree i s t) (h : SlotInv s) :
    t.StopPending i ↔ s.StopPending i := by
  rw [stopPending_iff, stopPending_iff]
  constructor
  · rintro ⟨o, ho, hid⟩
    have hmem := ha.work _ ho o rfl hid
    exact ⟨o, hmem, (ha.id o (h.live_work _ hmem o rfl)).symm.trans hid⟩
  · rintro ⟨o, ho, hid⟩
    exact ⟨o, ha.kept _ ho o rfl hid, (ha.id o (h.live_work _ ho o rfl)).trans hid⟩

/-- Where its bindings are the same too, what settles goes on settling. -/
theorem Agree.settling (ha : Agree i s t) (h : SlotInv s) (hs : s.Settling i) : t.Settling i := by
  intro hbound
  rw [ha.stopPending h]
  refine hs ?_
  rcases hbound with ⟨b, hb, hid⟩ | ⟨b, hb, o, ho, hid⟩
  · have hmem := ha.bound b hb hid
    exact .inl ⟨b, hmem, (ha.id _ (h.live_bindings b hmem)).symm.trans hid⟩
  · have hmem := ha.work b hb o (object?_of_bound? ho) hid
    exact .inr ⟨b, hmem, o, ho,
      (ha.id o (h.live_work b hmem o (object?_of_bound? ho))).symm.trans hid⟩

/-- And what is up stays up. -/
theorem Agree.bothUp (ha : Agree i s t) (h : SlotInv s) (hs : s.BothUp i) : t.BothUp i := by
  intro svc
  obtain ⟨b, hb, hbi, hsvc⟩ := hs svc
  exact ⟨b, ha.bound' b hb hbi, (ha.id _ (h.live_bindings b hb)).trans hbi, hsvc⟩

/-- **The frame**: an object is as steady as before when it, the queued blocks and the
bindings of its id are the same. -/
theorem Steady.agree (hs : s.Steady o) (h : SlotInv s) (ho : o < s.created)
    (ha : Agree (s.idOf o) s t) (hheap : t.heap o = s.heap o) : t.Steady o := by
  have hid := ha.id o ho
  have hst : t.stateOf o = s.stateOf o := by rw [stateOf, hheap, stateOf]
  have hown : ∀ b ∈ t.bindings, b.owner = o → b ∈ s.bindings := fun b hb hbo =>
    ha.bound b hb (by rw [hbo, hid])
  have hblock : ∀ b ∈ t.work, o ∈ b.object? → b ∈ s.work := fun b hb hbo =>
    ha.work b hb o hbo hid
  have hpending : t.StopPending (t.idOf o) ↔ s.StopPending (s.idOf o) := by
    rw [hid]
    exact ha.stopPending h
  constructor
  case holds =>
    intro b hb hbo
    rw [hheap]
    exact hs.holds b (hown b hb hbo) hbo
  case idle =>
    intro hidle
    have hrest := hs.idle (hst ▸ hidle)
    refine ⟨?_, fun b hb hbo => hrest.unbound b (hown b hb hbo) hbo, fun b hb hbo =>
      hrest.unposted b (hblock b hb (object?_of_bound? hbo)) hbo, ?_⟩
    · rw [hid]
      exact ha.settling h hrest.settling
    · rw [hheap]
      exact hrest.down
  case starting =>
    intro hstart
    have hup := hs.starting (hst ▸ hstart)
    refine ⟨fun hp => hup.unstopped (hpending.mp hp), ?_⟩
    rw [hheap]
    rcases hup.progress with ⟨⟨b, hb, hbo⟩, hdown⟩ | ⟨hbound, hdown⟩
    · exact .inl ⟨⟨b, ha.kept b hb o (object?_of_bound? hbo) rfl, hbo⟩, hdown⟩
    · refine .inr ⟨fun svc => ?_, hdown⟩
      obtain ⟨b, hb, hbo, hsvc⟩ := hbound svc
      exact ⟨b, ha.bound' b hb (by rw [hbo]), hbo, hsvc⟩
  case running =>
    intro hrun
    have hup := hs.running (hst ▸ hrun)
    refine ⟨by rw [hheap]; exact hup.holds, ?_⟩
    rcases hup.up with hunbind | ⟨hno, hboth⟩
    · exact .inl (ha.kept _ hunbind o rfl rfl)
    · refine .inr ⟨fun hp => hno (hpending.mp hp), ?_⟩
      rw [hid]
      exact ha.bothUp h hboth
  case stopping =>
    intro hstop
    exact ha.kept _ (hs.stopping (hst ▸ hstop)) o rfl rfl

/-- A step about one id keeps the registry coherent, when it does so for that id. -/
theorem Coherent.of_agree (h : Coherent s) (hslots : SlotInv t) (hindexed : Indexed t)
    (hconns : Connections t) (hreg : ∀ j, t.registered j = s.registered j)
    (hagree : ∀ j, j ≠ i → Agree j s t)
    (hheap : ∀ x < s.created, s.idOf x ≠ i → t.heap x = s.heap x)
    (hsteady : ∀ o, s.registered i = some o → s.Steady o → t.Steady o)
    (hsettling : s.registered i = none → s.Settling i → t.Settling i) : Coherent t where
  slots := hslots
  indexed := hindexed
  conns := hconns
  steady j o ho := by
    rw [hreg] at ho
    have hs := h.steady j o ho
    by_cases hj : j = i
    · subst hj
      exact hsteady o ho hs
    · obtain ⟨hlt, rfl⟩ := h.indexed.registered ho
      exact hs.agree h.slots hlt (hagree _ hj) (hheap o hlt hj)
  settling j hj := by
    rw [hreg] at hj
    have hs := h.settling j hj
    by_cases hji : j = i
    · subst hji
      exact hsettling hj hs
    · exact (hagree j hji).settling h.slots hs

/-- A step about some ids is no concern of another one. -/
theorem Local.agree {I : Set String} (hl : Local I s t) {j : String} (hj : j ∉ I) :
    Agree j s t where
  id x _ := hl.id x
  work b hb o ho hid := by
    rcases hl.work b hb with hb | ⟨x, hx, hxI⟩
    · exact hb
    · cases Option.mem_unique ho hx
      rw [hl.id] at hid
      exact absurd (hid ▸ hxI) hj
  kept b hb _ _ _ := hl.kept b hb
  bound b hb _ := by
    rw [hl.bindings] at hb
    exact hb
  bound' b hb _ := by
    rw [hl.bindings]
    exact hb

/-- It registers nothing. -/
theorem Local.registered {I : Set String} (hl : Local I s t) (j : String) :
    t.registered j = s.registered j :=
  registered_congr hl.index.2 hl.index.1 (fun x _ => hl.id x) j

/-- Connections stay in order when no binding is made and links are only passed on within
an id. -/
theorem Connections.mono (h : Connections s) (hlive : ∀ b ∈ s.bindings, b.owner < s.created)
    (hid : ∀ x < s.created, t.idOf x = s.idOf x) (hlinks : LinksFrom s t)
    (hbind : (t.bindings.map Binding.forget).Sublist (s.bindings.map Binding.forget))
    (hnext : s.nextConn ≤ t.nextConn) : Connections t := by
  have hconns : (t.bindings.map Binding.conn).Sublist (s.bindings.map Binding.conn) := by
    have hmap := hbind.map Binding.conn
    rw [List.map_map, List.map_map] at hmap
    exact hmap
  have hfrom : ∀ b ∈ t.bindings, ∃ c ∈ s.bindings, c.conn = b.conn ∧ c.owner = b.owner := by
    intro b hb
    obtain ⟨c, hc, heq⟩ := List.mem_map.mp (hbind.subset (List.mem_map_of_mem hb))
    have hconn : c.forget.conn = b.forget.conn := congrArg Binding.conn heq
    have hown : c.forget.owner = b.forget.owner := congrArg Binding.owner heq
    exact ⟨c, hc, hconn, hown⟩
  refine ⟨h.nodup.sublist hconns, fun b hb => ?_, fun x hx svc c hc => ?_⟩
  · obtain ⟨c, hc, hconn, -⟩ := hfrom b hb
    exact hconn ▸ (h.below c hc).trans_le hnext
  · obtain ⟨y, hy, hyx, hcy⟩ := hlinks x hx svc c hc
    obtain ⟨hlt, hown⟩ := h.held y hy svc c hcy
    refine ⟨hlt.trans_le hnext, fun b hb hconn => ?_⟩
    obtain ⟨d, hd, hdconn, hdown⟩ := hfrom b hb
    rw [← hyx, ← hown d hd (hdconn.trans hconn), ← hdown]
    exact hid _ (hlive d hd)

/-- Nor does it bind anything. -/
theorem Coherent.connections_local {I : Set String} (h : Coherent s) (hl : Local I s t) :
    Connections t :=
  h.conns.mono h.slots.live_bindings (fun x _ => hl.id x) (.local hl) (by rw [hl.bindings])
    (le_of_eq hl.nextConn.symm)

/-- A connection belongs to one binding. -/
theorem Connections.eq (h : Connections s) {b c : Binding} (hb : b ∈ s.bindings)
    (hc : c ∈ s.bindings) (hconn : b.conn = c.conn) : b = c :=
  List.inj_on_of_nodup_map h.nodup hb hc hconn

/-! ## `stop` and `start` -/

/-- A stopping object is steady with its unbind block. -/
theorem Steady.of_stopping (hst : s.stateOf o = .stopping) (hmem : .unbind o ∈ s.work)
    (hholds : ∀ b ∈ s.bindings, b.owner = o → ∀ svc, ((s.heap o).link svc).connection.isSome) :
    s.Steady o where
  holds := hholds
  idle h := nomatch hst.symm.trans h
  starting h := nomatch hst.symm.trans h
  running h := nomatch hst.symm.trans h
  stopping _ := hmem

/-- A starting object is steady while it comes up. -/
theorem Steady.of_starting (hst : s.stateOf o = .starting) (hup : s.ComingUp o)
    (hholds : ∀ b ∈ s.bindings, b.owner = o → ∀ svc, ((s.heap o).link svc).connection.isSome) :
    s.Steady o where
  holds := hholds
  idle h := nomatch hst.symm.trans h
  starting _ := hup
  running h := nomatch hst.symm.trans h
  stopping h := nomatch hst.symm.trans h

/-- An idle object is steady at rest. -/
theorem Steady.of_idle (hst : s.stateOf o = .idle) (hrest : s.AtRest o) : s.Steady o where
  holds b hb hown := absurd hown (hrest.unbound b hb)
  idle _ := hrest
  starting h := nomatch hst.symm.trans h
  running h := nomatch hst.symm.trans h
  stopping h := nomatch hst.symm.trans h

/-- A running object is steady while it is up. -/
theorem Steady.of_running (hst : s.stateOf o = .running) (hup : s.Up o) : s.Steady o where
  holds _ _ _ := hup.holds
  idle h := nomatch hst.symm.trans h
  starting h := nomatch hst.symm.trans h
  running _ := hup
  stopping h := nomatch hst.symm.trans h

/-- What `stop` leaves of an object that was up. -/
theorem stop_up (hst : s.stateOf o = .running ∨ s.stateOf o = .starting) :
    (s.stop o).heap o = { s.heap o with state := .stopping } ∧
      (s.stop o).work = s.work ++ [.unbind o] ∧ (s.stop o).bindings = s.bindings := by
  rw [stop_eq s o hst]
  refine ⟨?_, ?_, notifyStateChanged_bindings s o .stopping⟩
  · rw [post_heap, notifyStateChanged_heap, Function.update_self]
  · rw [work_post, work_notifyStateChanged]
    rfl

/-- `stop` of the registered object, or of one whose id is not registered.
SOURCE: KlipperInstance.kt:135-140 -/
theorem Coherent.stop (h : Coherent s) (ho : o < s.created)
    (hcmd : s.stateOf o = .running ∨ s.stateOf o = .starting → s.Commands o)
    (hreg : s.stateOf o = .running ∨ s.stateOf o = .starting →
      ∀ w ∈ s.registered (s.idOf o), w = o) : Coherent (s.stop o) := by
  by_cases hst : s.stateOf o = .running ∨ s.stateOf o = .starting
  swap
  · rw [stop_eq_self s o hst]
    exact h
  have hl := Local.stop (s := s) o
  obtain ⟨hheap, hwork, hbind⟩ := stop_up hst
  have hmem : .unbind o ∈ (s.stop o).work := by
    rw [hwork]
    exact List.mem_append_right _ List.mem_cons_self
  refine h.of_agree (h.slots.stop ho hcmd) (hl.indexed h.indexed) (h.connections_local hl)
    hl.registered (fun j hj => hl.agree hj) (fun x _ hx => hl.heap x hx) (fun w hw hs => ?_)
    fun _ _ _ => ?_
  · obtain rfl := hreg hst w hw
    refine .of_stopping (by rw [stateOf, hheap]) hmem fun b hb hown => ?_
    rw [hheap]
    exact hs.holds b (hbind ▸ hb) hown
  · exact ⟨_, hmem, o, rfl, hl.id o⟩

/-- There is a slot to pick while fewer than ten are in use. -/
theorem pickSlot_ne_none {slots : AList fun _ : Oid => Int} (h : slots.keys.length < SLOTS_COUNT) :
    pickSlot slots ≠ none := by
  have hlen : (slots.entries.map Sigma.snd).length = slots.keys.length := by
    rw [List.length_map]
    exact (List.length_map _).symm
  unfold pickSlot
  simp only [hlen, h, if_true]
  split <;> simp

/-- `start` of the registered object, with a slot to pick.
SOURCE: KlipperInstance.kt:46-133 -/
theorem Coherent.start (h : Coherent s) (ho : o < s.created) (dirs : Dirs)
    (hfree : s.stateOf o = .idle → s.IdFree (s.idOf o))
    (hreg : s.stateOf o = .idle → s.registered (s.idOf o) = some o)
    (hslot : s.stateOf o = .idle → dirs.directory → dirs.publicDirectory →
      pickSlot s.slots ≠ none) :
    Coherent (s.start o dirs).1 ∧ (s.start o dirs).2 = .returned := by
  have hl := Local.start (s := s) o dirs
  have hinv := h.slots.start ho dirs hfree
  by_cases hidle : s.stateOf o = .idle
  swap
  · have hrun : s.start o dirs = (s, .returned) := by
      unfold Registry.start
      rw [if_pos hidle]
    rw [hrun]
    exact ⟨h, rfl⟩
  have hrest := (h.steady _ o (hreg hidle)).idle hidle
  suffices hs : (s.start o dirs).1.Steady o ∧ (s.start o dirs).2 = .returned by
    refine ⟨h.of_agree hinv (hl.indexed h.indexed) (h.connections_local hl) hl.registered
      (fun j hj => hl.agree hj) (fun x _ hx => hl.heap x hx) (fun w hw _ => ?_)
      fun hnone _ => ?_, hs.2⟩
    · cases Option.mem_unique hw (hreg hidle)
      exact hs.1
    · rw [hreg hidle] at hnone
      cases hnone
  have hbind : ∀ b ∈ (s.start o dirs).1.bindings, b.owner ≠ o := by
    rw [hl.bindings]
    exact hrest.unbound
  have hholds : ∀ b ∈ (s.start o dirs).1.bindings, b.owner = o →
      ∀ svc, (((s.start o dirs).1.heap o).link svc).connection.isSome :=
    fun b hb hown => absurd hown (hbind b hb)
  have hstarting : (s.notifyStateChanged o .starting).stateOf o = .starting :=
    (stateOf_notifyStateChanged s o o .starting).trans (if_pos rfl)
  rcases start_cases s o dirs with ⟨hne, -⟩ | ⟨-, -, heq⟩ | ⟨-, hdir, hpub, hpick, -⟩ |
    ⟨k, -, -, -, -, heq⟩
  · exact absurd hidle hne
  · -- a directory is missing: `stop` at once
    rw [heq] at hholds ⊢
    obtain ⟨hheap, hwork, -⟩ := stop_up (.inr hstarting)
    refine ⟨.of_stopping (by rw [stateOf, hheap]) ?_ hholds, rfl⟩
    rw [hwork]
    exact List.mem_append_right _ List.mem_cons_self
  · exact absurd hpick (hslot hidle hdir hpub)
  · rw [heq] at hholds hl ⊢
    set u := (s.notifyStateChanged o .starting).modify o fun i => { i with slot := k } with hu
    have hheap : u.heap o = { s.heap o with state := .starting, slot := k } := by
      rw [hu, modify_heap, Function.update_self, notifyStateChanged_heap, Function.update_self]
    set v := ({ u with slots := s.slots.insert o k } : Registry).post (.bind o (s.idOf o)) with hv
    have hvheap : v.heap o = { s.heap o with state := .starting, slot := k } := hheap
    have hwork : v.work = s.work ++ [.bind o (s.idOf o)] := by
      rw [hv, work_post]
      exact congrArg (· ++ _) (work_notifyStateChanged o .starting)
    refine ⟨.of_starting (by rw [stateOf, hvheap]) ⟨fun hp => ?_, .inl ⟨⟨.bind o (s.idOf o), ?_, rfl⟩,
      ?_⟩⟩ hholds, rfl⟩
    · rw [hl.id] at hp
      obtain ⟨x, hx, hid⟩ := stopPending_iff.mp hp
      rw [hl.id] at hid
      rw [hwork, List.mem_append, List.mem_singleton] at hx
      exact (hfree hidle).2.2 _ (hx.resolve_right fun heq => by cases heq) x rfl hid
    · rw [hwork]
      exact List.mem_append_right _ List.mem_cons_self
    · rw [hvheap]
      exact hrest.down

/-! ## The posted blocks -/

/-- A step that only the servers see leaves every id alone. -/
theorem SameInstances.agree (hsame : SameInstances s t) (j : String) : Agree j s t := by
  have hid : ∀ x, t.idOf x = s.idOf x := fun x => by rw [idOf, hsame.heap, idOf]
  have hwork : t.work = s.work := by rw [work, hsame.queue, work]
  refine ⟨fun x _ => hid x, ?_, ?_, ?_, ?_⟩
  · exact fun b hb _ _ _ => hwork ▸ hb
  · exact fun b hb _ _ _ => hwork ▸ hb
  · exact fun b hb _ => hsame.bindings ▸ hb
  · exact fun b hb _ => hsame.bindings ▸ hb

/-- A step that only the servers see. -/
theorem Coherent.same (h : Coherent s) (hsame : SameInstances s t) : Coherent t := by
  have hid : ∀ x, t.idOf x = s.idOf x := fun x => by rw [idOf, hsame.heap, idOf]
  have hreg : ∀ j, t.registered j = s.registered j :=
    registered_congr hsame.instanceMap hsame.instances fun x _ => hid x
  refine h.of_agree (i := "") (h.slots.same hsame)
    (h.indexed.congr (le_of_eq hsame.created.symm) (fun x _ => hid x) hsame.instances
      hsame.instanceMap)
    (h.conns.mono h.slots.live_bindings (fun x _ => hid x)
      (fun x hx svc c hc => ⟨x, hsame.created ▸ hx, (hid x).symm, hsame.heap ▸ hc⟩)
      (by rw [hsame.bindings]) hsame.nextConn) hreg (fun j _ => hsame.agree j)
    (fun x _ _ => by rw [hsame.heap]) (fun o ho hs => ?_)
    fun _ hs => (hsame.agree _).settling h.slots hs
  obtain ⟨hlt, hoi⟩ := h.indexed.registered ho
  exact hs.agree h.slots hlt (hoi ▸ hsame.agree _) (by rw [hsame.heap])

/-- A block about the servers is none of the work. -/
theorem work_popServers {b : Block} {q : List Block} (hq : s.queue = b :: q)
    (hb : b.object? = none) : ({ s with queue := q } : Registry).work = s.work := by
  unfold work
  rw [hq, List.filter_cons_of_neg (by simp [hb])]

/-- Taking a block about the servers off the queue leaves every id alone. -/
theorem agree_pop {b : Block} {q : List Block} (hq : s.queue = b :: q)
    (hb : b.object? = none) (j : String) : Agree j s { s with queue := q } := by
  have hwork := work_popServers hq hb
  exact ⟨fun _ _ => rfl, fun b hb _ _ _ => hwork ▸ hb,
    fun b hb _ _ _ => hwork.symm ▸ hb, fun b hb _ => hb, fun b hb _ => hb⟩

/-- Taking a block about the servers off the queue. -/
theorem Coherent.pop (h : Coherent s) {b : Block} {q : List Block} (hq : s.queue = b :: q)
    (hb : b.object? = none) : Coherent { s with queue := q } := by
  have hwork := work_popServers hq hb
  refine h.of_agree (i := "") (h.slots.quiet (Quiet.of_eq h.slots rfl rfl (fun _ => rfl) hwork rfl))
    ⟨h.indexed.instances, h.indexed.instanceMap⟩ ⟨h.conns.nodup, h.conns.below, h.conns.held⟩
    (registered_congr rfl rfl fun _ _ => rfl) (fun j _ => agree_pop hq hb j) (fun _ _ _ => rfl)
    (fun o ho hs => ?_) fun _ hs => (agree_pop hq hb _).settling h.slots hs
  obtain ⟨hlt, hoi⟩ := h.indexed.registered ho
  exact hs.agree h.slots hlt (hoi ▸ agree_pop hq hb _) rfl

/-- What the bind block of an object does. -/
structure RanBind (s : Registry) (x : Oid) (n : String) (t : Registry) : Prop where
  created : t.created = s.created
  self : t.heap x = { s.heap x with link := fun svc =>
    { (s.heap x).link svc with
      intent := some (s.heap x).slot
      connection := some (match svc with
        | .klippy => s.nextConn
        | .moonraker => s.nextConn + 1) } }
  heap : ∀ y, y ≠ x → t.heap y = s.heap y
  work : s.work = .bind x n :: t.work
  bindings : t.bindings = s.bindings ++
    [⟨s.nextConn, x, .klippy, (s.heap x).slot, n, false⟩,
      ⟨s.nextConn + 1, x, .moonraker, (s.heap x).slot, n, false⟩]
  nextConn : t.nextConn = s.nextConn + 2
  index : t.instances = s.instances ∧ t.instanceMap = s.instanceMap

/-- The bind block at the head of the queue does this.
SOURCE: KlipperInstance.kt:93-132 -/
theorem SlotInv.ranBind (h : SlotInv s) {x : Oid} {n : String} {q : List Block}
    (hq : s.queue = .bind x n :: q) :
    RanBind s x n (({ s with queue := q } : Registry).runBind x n) := by
  have hpop := work_pop hq rfl
  have hhead : .bind x n ∈ s.work := hpop ▸ List.mem_cons_self
  have hservice : HasService (({ s with queue := q } : Registry).heap x).slot :=
    h.bind_service _ hhead x rfl
  have hself := runBind_self { s with queue := q } x n hservice
  rw [runBind_eq { s with queue := q } x n hservice] at hself ⊢
  exact ⟨rfl, hself, fun y hy => Function.update_of_ne hy _ _, hpop, rfl, rfl, rfl, rfl⟩

section RanBind

variable {x : Oid} {n : String} (hr : RanBind s x n t)

include hr

/-- No id changes. -/
theorem RanBind.id (y : Oid) : t.idOf y = s.idOf y := by
  by_cases hy : y = x
  · subst hy
    rw [idOf, hr.self, idOf]
  · rw [idOf, hr.heap y hy, idOf]

/-- No state changes. -/
theorem RanBind.state (y : Oid) : t.stateOf y = s.stateOf y := by
  by_cases hy : y = x
  · rw [hy, stateOf, hr.self, stateOf]
  · rw [stateOf, hr.heap y hy, stateOf]

/-- No service becomes connected. -/
theorem RanBind.connected (y : Oid) (svc : Svc) :
    ((t.heap y).link svc).connected = ((s.heap y).link svc).connected := by
  by_cases hy : y = x
  · rw [hy, hr.self]
  · rw [hr.heap y hy]

/-- What is still queued was queued. -/
theorem RanBind.tail {b : Block} (hb : b ∈ t.work) : b ∈ s.work :=
  hr.work ▸ List.mem_cons_of_mem _ hb

/-- The other blocks stay queued. -/
theorem RanBind.kept {b : Block} (hb : b ∈ s.work) (hne : b ≠ .bind x n) : b ∈ t.work := by
  rw [hr.work, List.mem_cons] at hb
  exact hb.resolve_left hne

/-- The bind block was queued. -/
theorem RanBind.head : .bind x n ∈ s.work := hr.work ▸ List.mem_cons_self

/-- The new bindings are those of the block's object. -/
theorem RanBind.mem_bindings {b : Binding} (hb : b ∈ t.bindings) :
    b ∈ s.bindings ∨ b.owner = x := by
  rw [hr.bindings] at hb
  simp only [List.mem_append, List.mem_cons, List.not_mem_nil, or_false] at hb
  rcases hb with hb | rfl | rfl
  · exact .inl hb
  · exact .inr rfl
  · exact .inr rfl

/-- What was bound stays bound. -/
theorem RanBind.mem_bindings' {b : Binding} (hb : b ∈ s.bindings) : b ∈ t.bindings := by
  rw [hr.bindings]
  exact List.mem_append_left _ hb

/-- Both services are bound, and not yet connected. -/
theorem RanBind.bound (svc : Svc) :
    ∃ b ∈ t.bindings, b.owner = x ∧ b.svc = svc ∧ b.connected = false := by
  rw [hr.bindings]
  cases svc with
  | klippy => exact ⟨⟨s.nextConn, x, .klippy, (s.heap x).slot, n, false⟩, by simp, rfl, rfl, rfl⟩
  | moonraker =>
    exact ⟨⟨s.nextConn + 1, x, .moonraker, (s.heap x).slot, n, false⟩, by simp, rfl, rfl, rfl⟩

/-- The pending stops stay the same. -/
theorem RanBind.stopPending : t.StopPending i ↔ s.StopPending i := by
  rw [stopPending_iff, stopPending_iff]
  constructor
  · rintro ⟨y, hy, hyi⟩
    exact ⟨y, hr.tail hy, (hr.id y).symm.trans hyi⟩
  · rintro ⟨y, hy, hyi⟩
    exact ⟨y, hr.kept hy (fun heq => by cases heq), (hr.id y).trans hyi⟩

/-- The other ids are left alone. -/
theorem RanBind.agree {j : String} (hj : j ≠ s.idOf x) : Agree j s t := by
  refine ⟨fun y _ => hr.id y, fun b hb _ _ _ => hr.tail hb,
    fun b hb y hy hyj => hr.kept hb ?_, fun b hb hbj => (hr.mem_bindings hb).resolve_right ?_,
    fun b hb _ => hr.mem_bindings' hb⟩
  · rintro rfl
    cases hy
    exact hj hyj.symm
  · rintro rfl
    exact hj (hbj.symm.trans (hr.id _))

/-- The two new connections are new. -/
theorem RanBind.connections (h : Connections s) : Connections t := by
  have hlt := h.below
  have hnext := hr.nextConn
  refine ⟨?_, ?_, fun y hy svc c hc => ?_⟩
  · rw [hr.bindings, List.map_append, List.nodup_append]
    refine ⟨h.nodup, by simp, fun c hc d hd => ?_⟩
    obtain ⟨b, hb, rfl⟩ := List.mem_map.mp hc
    have := hlt b hb
    simp only [List.map_cons, List.map_nil, List.mem_cons, List.not_mem_nil, or_false] at hd
    rcases hd with rfl | rfl <;> lia
  · intro b hb
    rw [hnext]
    rw [hr.bindings] at hb
    simp only [List.mem_append, List.mem_cons, List.not_mem_nil, or_false] at hb
    rcases hb with hb | rfl | rfl
    · have := hlt b hb
      lia
    · simp
    · simp
  · -- a connection held before is none of the new ones
    have hold : ((s.heap y).link svc).connection = some c → c < t.nextConn ∧
        ∀ b ∈ t.bindings, b.conn = c → t.idOf b.owner = t.idOf y := by
      intro hcy
      obtain ⟨hclt, hown⟩ := h.held y (hr.created ▸ hy) svc c hcy
      refine ⟨by lia, fun b hb hconn => ?_⟩
      rw [hr.id, hr.id]
      rw [hr.bindings] at hb
      simp only [List.mem_append, List.mem_cons, List.not_mem_nil, or_false] at hb
      rcases hb with hb | rfl | rfl
      · exact hown b hb hconn
      · simp only at hconn
        lia
      · simp only at hconn
        lia
    by_cases hyx : y = x
    · subst hyx
      rw [hr.self, Option.some.injEq] at hc
      have hge : s.nextConn ≤ c ∧ c < s.nextConn + 2 := by
        cases svc <;> simp only at hc <;> lia
      refine ⟨by lia, fun b hb hconn => ?_⟩
      rcases hr.mem_bindings hb with hmem | hown
      · have := hlt b hmem
        lia
      · rw [hown]
    · rw [hr.heap y hyx] at hc
      exact hold hc

/-- A starting object whose id the block is about goes on to wait for its connections. -/
theorem RanBind.comingUp (h : SlotInv s) (hoi : s.idOf o = s.idOf x) (hup : s.ComingUp o) :
    t.ComingUp o := by
  refine ⟨?_, ?_⟩
  · rw [hr.id, hr.stopPending]
    exact hup.unstopped
  rcases hup.progress with ⟨⟨b, hb, hbo⟩, hdown⟩ | ⟨hbound, -⟩
  · -- its bind block is this one, the first block of the id
    have hbx : b = .bind x n := by
      by_contra hbne
      have hord := h.ordered
      rw [hr.work, List.pairwise_cons] at hord
      exact hord.1 b (hr.kept hb hbne) x rfl o hbo hoi.symm
    subst hbx
    cases hbo
    refine .inr ⟨fun svc => ?_, .klippy, (hr.connected o .klippy).trans (hdown .klippy)⟩
    obtain ⟨b, hb, hown, hsvc, hcon⟩ := hr.bound svc
    exact ⟨b, hb, hown, hsvc, hcon.trans ((hr.connected o svc).trans (hdown svc)).symm⟩
  · obtain ⟨b, hb, hown, -⟩ := hbound .klippy
    exact absurd (by rw [hown, hoi]) (h.bind_first _ hr.head x rfl b hb)

/-- The registered object: only a starting one, the block's own, can wait for it. -/
theorem RanBind.steady (h : SlotInv s) (hoi : s.idOf o = s.idOf x) (hs : s.Steady o) :
    t.Steady o := by
  have hnone : ∀ c ∈ s.bindings, s.idOf c.owner ≠ s.idOf x := h.bind_first _ hr.head x rfl
  have hholds : ∀ b ∈ t.bindings, b.owner = o →
      ∀ svc, ((t.heap o).link svc).connection.isSome := by
    intro b hb hown svc
    by_cases hox : o = x
    · subst hox
      rw [hr.self]
      rfl
    · rw [hr.heap o hox]
      exact hs.holds b ((hr.mem_bindings hb).resolve_right (hown ▸ hox)) hown svc
  refine ⟨hholds, fun hst => ?_, fun hst => ?_, fun hst => ?_, fun hst => ?_⟩
  · have hrest := hs.idle (hr.state o ▸ hst)
    have hox : x ≠ o := fun he => hrest.unposted _ hr.head (he ▸ rfl)
    refine ⟨fun _ => ?_, fun b hb hown => ?_, fun b hb => hrest.unposted b (hr.tail hb), ?_⟩
    · rw [hr.id, hr.stopPending]
      exact hrest.settling (.inr ⟨_, hr.head, x, rfl, hoi.symm⟩)
    · exact hrest.unbound b
        ((hr.mem_bindings hb).resolve_right fun he => hox (he.symm.trans hown)) hown
    · exact fun svc => (hr.connected o svc).trans (hrest.down svc)
  · exact hr.comingUp h hoi (hs.starting (hr.state o ▸ hst))
  · have hup := hs.running (hr.state o ▸ hst)
    refine ⟨fun svc => ?_, .inl (hr.kept (hup.up.resolve_right fun hb => ?_)
      fun heq => by cases heq)⟩
    · by_cases hox : o = x
      · subst hox
        rw [hr.self]
        rfl
      · rw [hr.heap o hox]
        exact hup.holds svc
    · rw [hoi] at hb
      obtain ⟨b, hb, hbi, -⟩ := hb.2 .klippy
      exact hnone b hb hbi
  · exact hr.kept (hs.stopping (hr.state o ▸ hst)) fun heq => by cases heq

end RanBind

/-- The bind block: a starting object goes on to wait for its connections.
SOURCE: KlipperInstance.kt:93-132 -/
theorem Coherent.runBind (h : Coherent s) {x : Oid} {n : String} {q : List Block}
    (hq : s.queue = .bind x n :: q) :
    Coherent (({ s with queue := q } : Registry).runBind x n) := by
  have hr := h.slots.ranBind hq
  refine h.of_agree (i := s.idOf x) (h.slots.runBlock hq) (h.indexed.runBlock h.slots hq)
    (hr.connections h.conns) (registered_congr hr.index.2 hr.index.1 fun y _ => hr.id y)
    (fun j hj => hr.agree hj) (fun y _ hy => hr.heap y fun he => hy (congrArg s.idOf he))
    (fun o ho hs => hr.steady h.slots (h.indexed.registered ho).2 hs) fun _ hs _ => ?_
  rw [hr.stopPending]
  exact hs (.inr ⟨_, hr.head, x, rfl, rfl⟩)

/-- What the unbind block of an object does. -/
structure RanUnbind (s : Registry) (x : Oid) (t : Registry) : Prop where
  created : t.created = s.created
  id : ∀ y, t.idOf y = s.idOf y
  heap : ∀ y, y ≠ x → t.heap y = s.heap y
  link : ∀ svc, (t.heap x).link svc = {}
  idle : s.stateOf x = .idle ∨ s.stateOf x = .stopping ∨
    (∀ svc, ((s.heap x).link svc).connection.isSome) → t.stateOf x = .idle
  work : s.work = .unbind x :: t.work
  bindings : t.bindings = s.bindings.filter fun b => ¬s.Holds x b.conn
  gone : ∀ b ∈ t.bindings, s.idOf b.owner ≠ s.idOf x
  nextConn : t.nextConn = s.nextConn
  index : t.instances = s.instances ∧ t.instanceMap = s.instanceMap

/-- The unbind block at the head of the queue does this.
SOURCE: KlipperInstance.kt:140-163 -/
theorem SlotInv.ranUnbind (h : SlotInv s) {x : Oid} {q : List Block}
    (hq : s.queue = .unbind x :: q) :
    RanUnbind s x (({ s with queue := q } : Registry).runUnbind x) := by
  have hpop := work_pop hq rfl
  obtain ⟨-, -, hgone⟩ := h.popUnbind hq rfl
  set p : Registry := { s with queue := q } with hp
  obtain ⟨hrel, hlink, hbind⟩ := runUnbind_spec (s := p) (o := x)
  have hended := runUnbind_idle (s := p) (o := x)
  refine ⟨hrel.created, hrel.idOf, hrel.heap_ne, hlink, ?_, ?_, hbind, ?_, hrel.nextConn,
    hrel.instances, hrel.instanceMap⟩
  · rintro (hidle | hended')
    · rcases hrel.state with ⟨hsame, -⟩ | ⟨hidle', -⟩
      · exact hsame.trans hidle
      · exact hidle'
    · exact hended hended'
  · rw [hpop]
    obtain ⟨m, hm⟩ := hrel.queue
    refine congrArg _ ?_
    unfold work
    rw [hm, List.filter_append, List.filter_replicate]
    simp [Block.object?]
  · rw [hbind]
    exact hgone

section RanUnbind

variable {x : Oid} (hr : RanUnbind s x t)

include hr

/-- The unbind block was queued. -/
theorem RanUnbind.head : .unbind x ∈ s.work := hr.work ▸ List.mem_cons_self

/-- What is still queued was queued. -/
theorem RanUnbind.tail {b : Block} (hb : b ∈ t.work) : b ∈ s.work :=
  hr.work ▸ List.mem_cons_of_mem _ hb

/-- The other blocks stay queued. -/
theorem RanUnbind.kept {b : Block} (hb : b ∈ s.work) (hne : b ≠ .unbind x) : b ∈ t.work := by
  rw [hr.work, List.mem_cons] at hb
  exact hb.resolve_left hne

/-- Nothing of the id is about to be bound. -/
theorem RanUnbind.no_bind (h : SlotInv s) {b : Block} (hb : b ∈ t.work) {y : Oid}
    (hy : y ∈ b.bound?) : s.idOf y ≠ s.idOf x := by
  intro hyx
  have hord := h.ordered
  rw [hr.work, List.pairwise_cons] at hord
  exact hord.1 b hb x rfl y hy hyx.symm

/-- The id settles: nothing of it is left. -/
theorem RanUnbind.settling (h : SlotInv s) : t.Settling (s.idOf x) := by
  rintro (⟨b, hb, hbi⟩ | ⟨b, hb, y, hy, hyi⟩)
  · exact absurd ((hr.id _).symm.trans hbi) (hr.gone b hb)
  · exact absurd ((hr.id _).symm.trans hyi) (hr.no_bind h hb hy)

/-- The other ids are left alone: the object holds only connections of its own id. -/
theorem RanUnbind.agree (h : Connections s) (hx : x < s.created) {j : String}
    (hj : j ≠ s.idOf x) : Agree j s t := by
  refine ⟨fun y _ => hr.id y, fun b hb _ _ _ => hr.tail hb,
    fun b hb y hy hyj => hr.kept hb ?_, fun b hb _ => ?_, fun b hb hbj => ?_⟩
  · rintro rfl
    cases hy
    exact hj hyj.symm
  · rw [hr.bindings] at hb
    exact (List.mem_filter.mp hb).1
  · rw [hr.bindings]
    refine List.mem_filter.mpr ⟨hb, decide_eq_true ?_⟩
    rintro ⟨svc, hc⟩
    exact hj (hbj.symm.trans ((h.held x hx svc _ hc).2 b hb rfl))

/-- The connections that are left are those there were. -/
theorem RanUnbind.connections (h : SlotInv s) (hc : Connections s) : Connections t := by
  have hsub : (t.bindings.map Binding.forget).Sublist (s.bindings.map Binding.forget) := by
    rw [hr.bindings]
    exact List.Sublist.map _ List.filter_sublist
  have hlinks : LinksFrom s t := by
    intro y hy svc c hcy
    by_cases hyx : y = x
    · subst hyx
      rw [hr.link] at hcy
      cases hcy
    · rw [hr.heap y hyx] at hcy
      exact ⟨y, hr.created ▸ hy, (hr.id y).symm, hcy⟩
  exact hc.mono h.live_bindings (fun y _ => hr.id y) hlinks hsub (le_of_eq hr.nextConn.symm)

/-- The registered object is at rest when the block is its own, and else as it was. -/
theorem RanUnbind.steady (h : SlotInv s) (hoi : s.idOf o = s.idOf x) (hs : s.Steady o) :
    t.Steady o := by
  have hunbound : ∀ b ∈ t.bindings, b.owner ≠ o := fun b hb hown =>
    hr.gone b hb (by rw [hown, hoi])
  have hunposted : ∀ b ∈ t.work, o ∉ b.bound? := fun b hb hbo => hr.no_bind h hb hbo hoi
  have hpending : s.StopPending (s.idOf o) := hoi ▸ stopPending_of_unbind hr.head
  by_cases hox : o = x
  · subst hox
    have hidle : t.stateOf o = .idle := by
      refine hr.idle ?_
      cases hst : s.stateOf o with
      | idle => exact .inl rfl
      | starting => exact absurd hpending (hs.starting hst).unstopped
      | running => exact .inr (.inr (hs.running hst).holds)
      | stopping => exact .inr (.inl rfl)
    refine .of_idle hidle ⟨?_, hunbound, hunposted, fun svc => by rw [hr.link]⟩
    rw [hr.id]
    exact hr.settling h
  · have hheap := hr.heap o hox
    have hst : t.stateOf o = s.stateOf o := by rw [stateOf, hheap, stateOf]
    have hne : Block.unbind o ≠ .unbind x := fun he => hox (Block.unbind.inj he)
    refine ⟨fun b hb hown => absurd hown (hunbound b hb), fun hi => ?_, fun hi => ?_,
      fun hi => ?_, fun hi => ?_⟩
    · refine ⟨?_, hunbound, hunposted, ?_⟩
      · rw [hr.id, hoi]
        exact hr.settling h
      · rw [hheap]
        exact (hs.idle (hst ▸ hi)).down
    · exact absurd hpending (hs.starting (hst ▸ hi)).unstopped
    · have hup := hs.running (hst ▸ hi)
      refine ⟨by rw [hheap]; exact hup.holds, .inl (hr.kept ?_ hne)⟩
      exact hup.up.resolve_right fun hno => hno.1 hpending
    · exact hr.kept (hs.stopping (hst ▸ hi)) hne

end RanUnbind

/-- The unbind block: nothing of its id is left, bound or about to be.
SOURCE: KlipperInstance.kt:140-163 -/
theorem Coherent.runUnbind (h : Coherent s) {x : Oid} {q : List Block}
    (hq : s.queue = .unbind x :: q) : Coherent (({ s with queue := q } : Registry).runUnbind x) := by
  have hr := h.slots.ranUnbind hq
  exact h.of_agree (i := s.idOf x) (h.slots.runBlock hq) (h.indexed.runBlock h.slots hq)
    (hr.connections h.slots h.conns)
    (registered_congr hr.index.2 hr.index.1 fun y _ => hr.id y)
    (fun j hj => hr.agree h.conns (h.slots.live_work _ hr.head x rfl) hj)
    (fun y _ hy => hr.heap y fun he => hy (congrArg s.idOf he))
    (fun o ho hs => hr.steady h.slots (h.indexed.registered ho).2 hs)
    fun _ _ => hr.settling h.slots

/-! ## The callbacks -/

/-- What a callback of a binding leaves alone: everything but the flag of the binding, and
the links and the state of its owner. -/
structure Called (s : Registry) (b : Binding) (flag : Bool) (t : Registry) : Prop where
  created : t.created = s.created
  id : ∀ x, t.idOf x = s.idOf x
  heap : ∀ x, x ≠ b.owner → t.heap x = s.heap x
  work : t.work = s.work
  bindings : t.bindings =
    s.bindings.map fun c => if c.conn = b.conn then { c with connected := flag } else c
  nextConn : t.nextConn = s.nextConn
  index : t.instances = s.instances ∧ t.instanceMap = s.instanceMap

/-- A callback marks its binding, and may change the link it is about. -/
theorem Called.modifyLink (b : Binding) (flag : Bool) (f : Link → Link) :
    Called s b flag ((s.setConnected b.conn flag).modifyLink b.owner b.svc f) where
  created := rfl
  id x := idOf_modify (s.setConnected b.conn flag) b.owner x _ fun _ => rfl
  heap _ hx := Function.update_of_ne hx _ _
  work := rfl
  bindings := rfl
  nextConn := rfl
  index := ⟨rfl, rfl⟩

/-- It may announce a state of the owner. -/
theorem Called.notifyStateChanged {b : Binding} {flag : Bool} (h : Called s b flag t)
    (st : State) : Called s b flag (t.notifyStateChanged b.owner st) where
  created := (notifyStateChanged_created t b.owner st).trans h.created
  id x := (idOf_notifyStateChanged t b.owner x st).trans (h.id x)
  heap x hx := by
    rw [notifyStateChanged_heap, Function.update_of_ne hx]
    exact h.heap x hx
  work := (work_notifyStateChanged b.owner st).trans h.work
  bindings := (notifyStateChanged_bindings t b.owner st).trans h.bindings
  nextConn := (notifyStateChanged_nextConn t b.owner st).trans h.nextConn
  index := ⟨(notifyStateChanged_instances t b.owner st).trans h.index.1,
    (notifyStateChanged_instanceMap t b.owner st).trans h.index.2⟩

/-- The callback of a service that comes up. -/
theorem Called.onServiceConnected (b : Binding) : Called s b true (s.onServiceConnected b) := by
  have hlink := Called.modifyLink (s := s) b true fun l => { l with connected := true }
  unfold Registry.onServiceConnected
  simp only
  split
  · exact hlink.notifyStateChanged .running
  · exact hlink

/-- The callback of a service that is lost. -/
theorem Called.onServiceDisconnected (b : Binding) :
    Called s b false (s.onServiceDisconnected b) := by
  have hlink := Called.modifyLink (s := s) b false
    fun l => { l with connection := none, connected := false }
  unfold Registry.onServiceDisconnected
  rw [onUnbound_eq]
  split
  · exact hlink
  · exact hlink.notifyStateChanged .idle

/-- The bindings after a callback. -/
theorem Called.mem_bindings {b : Binding} {flag : Bool} (hc : Called s b flag t) {d : Binding}
    (hd : d ∈ t.bindings) : ∃ c ∈ s.bindings, c.owner = d.owner ∧ c.svc = d.svc ∧
      (c.conn ≠ b.conn → c = d) := by
  rw [hc.bindings] at hd
  obtain ⟨c, hcm, rfl⟩ := List.mem_map.mp hd
  by_cases heq : c.conn = b.conn
  · exact ⟨c, hcm, by rw [if_pos heq], by rw [if_pos heq], fun hne => absurd heq hne⟩
  · exact ⟨c, hcm, by rw [if_neg heq], by rw [if_neg heq], fun _ => (if_neg heq).symm⟩

/-- Every binding is still there, and only that of the callback has another flag. -/
theorem Called.mem_bindings' {b : Binding} {flag : Bool} (hc : Called s b flag t) {c : Binding}
    (hcm : c ∈ s.bindings) : ∃ d ∈ t.bindings, d.owner = c.owner ∧ d.svc = c.svc ∧
      d.connected = if c.conn = b.conn then flag else c.connected := by
  have hmem := List.mem_map_of_mem
    (f := fun c : Binding => if c.conn = b.conn then { c with connected := flag } else c) hcm
  rw [← hc.bindings] at hmem
  refine ⟨_, hmem, ?_⟩
  by_cases heq : c.conn = b.conn
  · simp only [heq, if_true, and_self]
  · simp only [heq, if_false, and_self]

/-- The pending stops stay the same. -/
theorem Called.stopPending {b : Binding} {flag : Bool} (hc : Called s b flag t) :
    t.StopPending i ↔ s.StopPending i := by
  simp only [stopPending_iff, hc.work, hc.id]

/-- What settles goes on settling. -/
theorem Called.settling {b : Binding} {flag : Bool} (hc : Called s b flag t)
    (hs : s.Settling i) : t.Settling i := by
  intro hbound
  rw [hc.stopPending]
  refine hs ?_
  rcases hbound with ⟨d, hd, hdi⟩ | hpost
  · obtain ⟨c, hcm, hown, -⟩ := hc.mem_bindings hd
    rw [hc.id, ← hown] at hdi
    exact .inl ⟨c, hcm, hdi⟩
  · simp only [hc.work, hc.id] at hpost
    exact .inr hpost

/-- A callback leaves the other ids alone. -/
theorem Called.agree {b : Binding} {flag : Bool} (hc : Called s b flag t) (h : Coherent s)
    (hb : b ∈ s.bindings) {j : String} (hj : j ≠ s.idOf b.owner) : Agree j s t := by
  refine ⟨fun x _ => hc.id x, fun d hd _ _ _ => hc.work ▸ hd,
    fun d hd _ _ _ => hc.work ▸ hd, fun d hd hdj => ?_, fun c hcm hcj => ?_⟩
  · obtain ⟨c, hcm, hown, -, heq⟩ := hc.mem_bindings hd
    have hne : c.conn ≠ b.conn := by
      intro hconn
      rw [hc.id, ← hown, h.conns.eq hcm hb hconn] at hdj
      exact hj hdj.symm
    exact heq hne ▸ hcm
  · have hne : c.conn ≠ b.conn := by
      intro hconn
      rw [h.conns.eq hcm hb hconn] at hcj
      exact hj hcj.symm
    have hmem := List.mem_map_of_mem
      (f := fun c : Binding => if c.conn = b.conn then { c with connected := flag } else c) hcm
    rw [if_neg hne] at hmem
    rw [hc.bindings]
    exact hmem

/-- A registered object that does not own the binding: whoever does is superseded, so a
connection changes nothing and a loss is one of an id about to be unbound. -/
theorem Called.steady_other {b : Binding} {flag : Bool} (hc : Called s b flag t)
    (h : Coherent s) (hb : b ∈ s.bindings) (hoi : s.idOf o = s.idOf b.owner) (hs : s.Steady o)
    (hne : o ≠ b.owner) (hflag : flag = true ∨ s.StopPending (s.idOf b.owner)) : t.Steady o := by
  have hheap := hc.heap o hne
  have hst : t.stateOf o = s.stateOf o := by rw [stateOf, hheap, stateOf]
  have hholds : ∀ d ∈ t.bindings, d.owner = o →
      ∀ svc, ((t.heap o).link svc).connection.isSome := by
    intro d hd hown
    obtain ⟨c, hcm, hcown, -⟩ := hc.mem_bindings hd
    rw [hheap]
    exact hs.holds c hcm (hcown.trans hown)
  refine ⟨hholds, fun hi => ?_, fun hi => ?_, fun hi => ?_, fun hi => ?_⟩
  · have hrest := hs.idle (hst ▸ hi)
    refine ⟨?_, fun d hd hown => ?_, ?_, ?_⟩
    · rw [hc.id]
      exact hc.settling hrest.settling
    · obtain ⟨c, hcm, hcown, -⟩ := hc.mem_bindings hd
      exact hrest.unbound c hcm (hcown.trans hown)
    · rw [hc.work]
      exact hrest.unposted
    · rw [hheap]
      exact hrest.down
  · exact absurd ((hs.starting (hst ▸ hi)).owner h.slots hb hoi.symm).1 (Ne.symm hne)
  · have hup := hs.running (hst ▸ hi)
    refine ⟨by rw [hheap]; exact hup.holds, ?_⟩
    rw [hc.work, hc.id, hc.stopPending]
    rcases hup.up with hunbind | ⟨hno, hboth⟩
    · exact .inl hunbind
    · refine .inr ⟨hno, fun svc => ?_⟩
      have htrue := hflag.resolve_right fun hp => hno (hoi ▸ hp)
      obtain ⟨c, hcm, hci, hsvc, hcon⟩ := hboth svc
      obtain ⟨d, hd, hdown, hdsvc, hdcon⟩ := hc.mem_bindings' hcm
      refine ⟨d, hd, by rw [hc.id, hdown]; exact hci, hdsvc.trans hsvc, ?_⟩
      rw [hdcon, htrue, hcon, ite_self]
  · rw [hc.work]
    exact hs.stopping (hst ▸ hi)

/-- A callback keeps the registry coherent, when it does so for the owner's own id. -/
theorem Called.coherent {b : Binding} {flag : Bool} (hc : Called s b flag t) (h : Coherent s)
    (hb : b ∈ s.bindings) (hslots : SlotInv t) (hindexed : Indexed t)
    (hlinks : ∀ svc c, ((t.heap b.owner).link svc).connection = some c →
      ((s.heap b.owner).link svc).connection = some c)
    (hflag : flag = true ∨ s.StopPending (s.idOf b.owner))
    (hown : s.registered (s.idOf b.owner) = some b.owner → s.Steady b.owner →
      t.Steady b.owner) : Coherent t := by
  have hfrom : LinksFrom s t := by
    intro x hx svc c hcx
    refine ⟨x, hc.created ▸ hx, (hc.id x).symm, ?_⟩
    by_cases hxb : x = b.owner
    · subst hxb
      exact hlinks svc c hcx
    · rw [hc.heap x hxb] at hcx
      exact hcx
  have hforget : t.bindings.map Binding.forget = s.bindings.map Binding.forget := by
    rw [hc.bindings, List.map_map]
    refine List.map_congr_left fun c _ => ?_
    simp only [Function.comp_apply]
    split <;> rfl
  refine h.of_agree (i := s.idOf b.owner) hslots hindexed
    (h.conns.mono h.slots.live_bindings (fun x _ => hc.id x) hfrom (by rw [hforget])
      (le_of_eq hc.nextConn.symm))
    (registered_congr hc.index.2 hc.index.1 fun x _ => hc.id x)
    (fun j hj => hc.agree h hb hj)
    (fun x _ hx => hc.heap x fun he => hx (congrArg s.idOf he)) (fun o ho hs => ?_)
    fun _ hs => hc.settling hs
  by_cases hox : o = b.owner
  · subst hox
    exact hown ho hs
  · exact hc.steady_other h hb (h.indexed.registered ho).2 hs hox hflag

/-- `onServiceConnected` of a registered owner: the second connection makes it run.
SOURCE: KlipperInstance.kt:99-104, 118-123 -/
theorem Coherent.onServiceConnected (h : Coherent s) {b : Binding} (hb : b ∈ s.bindings) :
    Coherent (s.onServiceConnected b) := by
  have hc := Called.onServiceConnected (s := s) b
  have hinv := h.slots.onServiceConnected b
  have hindexed := h.indexed.onServiceConnected b
  have hconn := s.connection_onServiceConnected b
  have hflag := s.connected_onServiceConnected b
  have hstate := s.stateOf_onServiceConnected b
  set t := s.onServiceConnected b
  refine hc.coherent h hb hinv hindexed (fun svc c hcx => (hconn svc) ▸ hcx) (.inl rfl)
    fun _ hs => ?_
  set o := b.owner with ho
  have hsholds := hs.holds b hb rfl
  have hholds : ∀ svc, ((t.heap o).link svc).connection.isSome := by
    intro svc
    rw [hconn]
    exact hsholds svc
  have hbothUp : s.BothUp (s.idOf o) → t.BothUp (s.idOf o) := by
    intro hboth svc
    obtain ⟨c, hcm, hci, hsvc, hcon⟩ := hboth svc
    obtain ⟨d, hd, hdown, hdsvc, hdcon⟩ := hc.mem_bindings' hcm
    refine ⟨d, hd, by rw [hc.id, hdown]; exact hci, hdsvc.trans hsvc, ?_⟩
    rw [hdcon, hcon, ite_self]
  -- its bindings' flags are the connections Android has reported
  have hbound : s.ComingUp o → ∀ svc, ∃ d ∈ t.bindings, d.owner = o ∧ d.svc = svc ∧
      d.connected = ((t.heap o).link svc).connected := by
    intro hup svc
    obtain ⟨-, -, hall, -⟩ := hup.owner h.slots hb rfl
    obtain ⟨c, hcm, hcown, hsvc, hcon⟩ := hall svc
    obtain ⟨d, hd, hdown, hdsvc, hdcon⟩ := hc.mem_bindings' hcm
    refine ⟨d, hd, hdown.trans hcown, hdsvc.trans hsvc, ?_⟩
    rw [hdcon, hflag]
    by_cases hsb : svc = b.svc
    · have hcb : c = b := h.slots.same_binding hcm hb (by rw [hcown]) (hsvc.trans hsb)
      rw [if_pos hsb, if_pos (by rw [hcb])]
    · have hcb : c.conn ≠ b.conn := fun he =>
        hsb (hsvc.symm.trans (congrArg Binding.svc (h.conns.eq hcm hb he)))
      rw [if_neg hsb, if_neg hcb, hcon]
  have hunbound : ∀ d ∈ s.bindings, d.owner = o → s.stateOf o ≠ .idle := fun d hd hown hi =>
    (hs.idle hi).unbound d hd hown
  by_cases hup : ((s.heap o).link b.svc.other).connected = true
  · -- the other service is connected: the object runs
    have hst : t.stateOf o = .running := by rw [hstate, if_pos hup]
    refine .of_running hst ⟨hholds, ?_⟩
    rw [hc.work, hc.stopPending, hc.id]
    cases hso : s.stateOf o with
    | idle => exact absurd hso (hunbound b hb rfl)
    | starting =>
      have hcoming := hs.starting hso
      refine .inr ⟨hcoming.unstopped, fun svc => ?_⟩
      obtain ⟨d, hd, hdown, hdsvc, hdcon⟩ := hbound hcoming svc
      refine ⟨d, hd, by rw [hc.id, hdown], hdsvc, ?_⟩
      rw [hdcon, hflag]
      split
      · rfl
      · next hne =>
        have hsvc : svc = b.svc.other := by
          revert hne
          cases svc <;> cases b.svc <;> simp [Svc.other]
        rw [hsvc]
        exact hup
    | running => exact (hs.running hso).up.imp_right fun hno => ⟨hno.1, hbothUp hno.2⟩
    | stopping => exact .inl (hs.stopping hso)
  · have hst : t.stateOf o = s.stateOf o := by rw [hstate, if_neg hup]
    refine ⟨fun _ _ _ => hholds, fun hi => ?_, fun hi => ?_, fun hi => ?_, fun hi => ?_⟩
    · exact absurd (hst.symm.trans hi) (hunbound b hb rfl)
    · have hcoming := hs.starting (hst.symm.trans hi)
      refine ⟨?_, .inr ⟨hbound hcoming, b.svc.other, ?_⟩⟩
      · rw [hc.id, hc.stopPending]
        exact hcoming.unstopped
      · rw [hflag, if_neg (by cases b.svc <;> simp [Svc.other])]
        exact Bool.eq_false_iff.mpr hup
    · refine ⟨hholds, ?_⟩
      rw [hc.work, hc.stopPending, hc.id]
      exact (hs.running (hst.symm.trans hi)).up.imp_right fun hno => ⟨hno.1, hbothUp hno.2⟩
    · rw [hc.work]
      exact hs.stopping (hst.symm.trans hi)

/-- `onServiceDisconnected` of a superseded owner whose id is about to be unbound.
SOURCE: KlipperInstance.kt:106-108, 125-127, 166-180 -/
theorem Coherent.onServiceDisconnected (h : Coherent s) {b : Binding} (hb : b ∈ s.bindings)
    (hqueue : .unbind b.owner ∉ s.work) (hpending : s.StopPending (s.idOf b.owner)) :
    Coherent (s.onServiceDisconnected b) := by
  have hset : Indexed (s.setConnected b.conn false) :=
    h.indexed.congr le_rfl (fun _ _ => rfl) rfl rfl
  refine (Called.onServiceDisconnected b).coherent h hb
    (h.slots.onServiceDisconnected b hqueue (.inr hpending)) (hset.onUnbound b.svc b.owner)
    (fun svc c hc => ?_) (.inr hpending) fun ho hs => ?_
  · unfold Registry.onServiceDisconnected at hc
    by_cases hsvc : svc = b.svc
    · subst hsvc
      rw [onUnbound_eq] at hc
      split at hc <;> simp [Registry.modifyLink] at hc
    · rw [onUnbound_link_ne _ _ hsvc] at hc
      exact hc
  · -- in no state does the registered object own a binding here
    exfalso
    cases hso : s.stateOf b.owner with
    | idle => exact (hs.idle hso).unbound b hb rfl
    | starting => exact (hs.starting hso).unstopped hpending
    | running => exact (hs.running hso).up.elim hqueue fun hno => hno.1 hpending
    | stopping => exact hqueue (hs.stopping hso)

end Registry

end Cream.Model
