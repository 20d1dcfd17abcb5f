import Cream.Analysis.SlotLedger

/-!
# The operations keep the slot ledger

`SlotInv` under `notifyStateChanged`, `stop`, `start`, the posted blocks and the two
callbacks. Each theorem's hypotheses are what the operation has to find for the ledger to
stay true; nothing in the code checks them.
-/

set_option autoImplicit false

namespace Cream.Model

open Cream.Library.Lease

/-- The object an unbind block unbinds. -/
def Block.unbound? : Block → Option Oid
  | .unbind o => some o
  | _ => none

namespace Registry

variable {s t : Registry}

/-- An unbind block of this id is queued. -/
def StopPending (s : Registry) (i : String) : Prop :=
  ∃ b ∈ s.work, ∃ o ∈ b.unbound?, s.idOf o = i

instance (s : Registry) (i : String) : Decidable (s.StopPending i) :=
  inferInstanceAs (Decidable (∃ b ∈ s.work, ∃ o ∈ b.unbound?, s.idOf o = i))

/-- An id with a pending stop has no lease. -/
theorem SlotInv.not_leased (h : SlotInv s) {i : String} (hp : s.StopPending i) (k : Int) :
    ¬s.Leased i k := by
  obtain ⟨b, hb, o, ho, rfl⟩ := hp
  cases b with
  | unbind x =>
    simp only [Block.unbound?, Option.mem_some] at ho
    subst ho
    exact h.not_leased_of_unbind hb k
  | bind x n => cases ho
  | stopServers => cases ho
  | bindServers => cases ho

/-! ## Quiet changes of one object -/

/-- Assigning to an object is quiet when the id stays, an object that is a key or is about
to bind keeps its slot, an object that is about to unbind keeps its connections, and a key
does not become idle, nor stopping while its id is leased. -/
theorem Quiet.modify (h : SlotInv s) {o : Oid} {f : KlipperInstance → KlipperInstance}
    (hid : (f (s.heap o)).id = s.idOf o)
    (hslot : (f (s.heap o)).slot = (s.heap o).slot ∨
      (s.slots.lookup o = none ∧ ∀ b ∈ s.work, o ∉ b.bound?))
    (hlink : (∀ svc, ((f (s.heap o)).link svc).connection = ((s.heap o).link svc).connection) ∨
      .unbind o ∉ s.work)
    (hstate : (f (s.heap o)).state = s.stateOf o ∨ s.slots.lookup o = none ∨
      ((f (s.heap o)).state ≠ .idle ∧
        ((f (s.heap o)).state = .stopping → ∀ l, ¬s.Leased (s.idOf o) l))) :
    Quiet s (s.modify o f) := by
  have hne : ∀ x, x ≠ o → (s.modify o f).heap x = s.heap x :=
    fun x hx => Function.update_of_ne hx _ _
  have heq : (s.modify o f).heap o = f (s.heap o) := Function.update_self _ _ _
  have hst : ∀ x, x ≠ o → (s.modify o f).stateOf x = s.stateOf x := by
    intro x hx
    rw [stateOf, hne x hx, stateOf]
  have hsto : (s.modify o f).stateOf o = (f (s.heap o)).state := by rw [stateOf, heq]
  refine ⟨le_rfl, ?_, ?_, ?_, ?_, ?_, ?_, fun _ => rfl, rfl, rfl⟩
  · intro x _
    by_cases hx : x = o
    · subst hx
      rw [idOf, heq]
      exact hid
    · rw [idOf, hne x hx, idOf]
  · intro x k hk
    by_cases hx : x = o
    · subst hx
      rcases hslot with hslot | ⟨hnone, -⟩
      · rw [heq, hslot]
      · rw [hnone] at hk
        cases hk
    · rw [hne x hx]
  · intro b hb x hx
    by_cases hxo : x = o
    · subst hxo
      rcases hslot with hslot | ⟨-, hnone⟩
      · rw [heq, hslot]
      · exact absurd hx (hnone b hb)
    · rw [hne x hxo]
  · intro x hx b _ _
    by_cases hxo : x = o
    · subst hxo
      rcases hlink with hlink | hno
      · rw [heq, hlink]
      · exact absurd hx hno
    · rw [hne x hxo]
  · intro x k hk
    by_cases hx : x = o
    · subst hx
      rw [hsto]
      rcases hstate with hsame | hnone | ⟨hact, -⟩
      · rw [hsame]
        exact h.key_active x k hk
      · rw [hnone] at hk
        cases hk
      · exact hact
    · rw [hst x hx]
      exact h.key_active x k hk
  · intro x k hk hstop
    by_cases hx : x = o
    · subst hx
      rw [hsto] at hstop
      rcases hstate with hsame | hnone | ⟨-, hno⟩
      · exact .inl (hsame ▸ hstop)
      · rw [hnone] at hk
        cases hk
      · exact .inr (hno hstop)
    · rw [hst x hx] at hstop
      exact .inl hstop

/-- Changes of other fields, and of blocks about the servers, are quiet. -/
theorem Quiet.of_eq (h : SlotInv s) (hheap : t.heap = s.heap) (hcreated : t.created = s.created)
    (hlookup : ∀ x, t.slots.lookup x = s.slots.lookup x) (hwork : t.work = s.work)
    (hbindings : t.bindings = s.bindings) : Quiet s t := by
  have hid : t.idOf = s.idOf := by
    funext x
    rw [idOf, hheap, idOf]
  have hst : t.stateOf = s.stateOf := by
    funext x
    rw [stateOf, hheap, stateOf]
  constructor
  case created => rw [hcreated]
  case id => simp [hid]
  case slot_key => simp [hheap]
  case slot_bind => simp [hheap]
  case connection => simp [hheap]
  case active =>
    rw [hst]
    exact h.key_active
  case stopping =>
    rw [hst]
    exact fun _ _ _ hstop => .inl hstop
  case lookup => exact hlookup
  case work => exact hwork
  case bindings => rw [hbindings]

/-- The blocks of an announcement are about no object. -/
theorem filter_notifyBlocks (st : State) :
    (notifyBlocks st).filter (fun b => b.object?.isSome) = [] := by
  cases st <;> rfl

/-- So it adds no work. -/
@[simp] theorem work_notifyStateChanged (o : Oid) (st : State) :
    (s.notifyStateChanged o st).work = s.work := by
  unfold work
  rw [notifyStateChanged_queue, List.filter_append, filter_notifyBlocks, List.append_nil]

/-- **A change of state** keeps the ledger true, when an object that stops or becomes idle
has no lease at the end of the queue.
SOURCE: KlipperInstance.kt:182-218 -/
theorem SlotInv.notifyStateChanged (h : SlotInv s) (o : Oid) (st : State)
    (hno : st = .idle ∨ st = .stopping → ∀ l, ¬s.Leased (s.idOf o) l) :
    SlotInv (s.notifyStateChanged o st) := by
  -- strike the entries first, then change the state
  have hstrike : SlotInv { s with slots := (s.notifyStateChanged o st).slots } := by
    by_cases hidle : st = .idle
    · refine h.strike (hno (.inl hidle)) fun x => ?_
      rw [lookup_notifyStateChanged]
      simp [hidle]
    · refine h.quiet (Quiet.of_eq h rfl rfl (fun x => ?_) rfl rfl)
      rw [lookup_notifyStateChanged, if_neg (by simp [hidle])]
  set u : Registry := { s with slots := (s.notifyStateChanged o st).slots } with hu
  have hstate : st = u.stateOf o ∨ u.slots.lookup o = none ∨
      (st ≠ .idle ∧ (st = .stopping → ∀ l, ¬u.Leased (u.idOf o) l)) := by
    right
    by_cases hidle : st = .idle
    · left
      rw [hu]
      simp [lookup_notifyStateChanged, hidle]
    · exact .inr ⟨hidle, fun hstop => hno (.inr hstop)⟩
  have hmodify : SlotInv (u.modify o fun i => { i with state := st }) :=
    hstrike.quiet (Quiet.modify hstrike rfl (.inl rfl) (.inl fun _ => rfl) hstate)
  have heq : s.notifyStateChanged o st = { u.modify o fun i => { i with state := st } with
      queue := (s.notifyStateChanged o st).queue
      notified := (s.notifyStateChanged o st).notified
      fired := (s.notifyStateChanged o st).fired } := by
    cases st <;> rfl
  rw [heq]
  exact hmodify.quiet
    (Quiet.of_eq hmodify rfl rfl (fun _ => rfl) (work_notifyStateChanged o st) rfl)

/-! ## `stop` and `start` -/

/-- `stop` of an object that commands its id.
SOURCE: KlipperInstance.kt:135-140 -/
theorem SlotInv.stop (h : SlotInv s) {o : Oid} (ho : o < s.created)
    (hcmd : s.stateOf o = .running ∨ s.stateOf o = .starting → s.Commands o) :
    SlotInv (s.stop o) := by
  by_cases hst : s.stateOf o = .running ∨ s.stateOf o = .starting
  · have hpost := h.postUnbind ho (hcmd hst)
    have hmem : .unbind o ∈ (s.post (.unbind o)).work := by
      rw [work_post]
      exact List.mem_append_right _ List.mem_cons_self
    rw [stop_eq s o hst]
    exact hpost.notifyStateChanged o .stopping fun _ => hpost.not_leased_of_unbind hmem
  · rw [stop_eq_self s o hst]
    exact h

/-- A free id is free whatever is assigned to the objects, as long as the ids stay. -/
theorem IdFree.congr {i : String} (h : s.IdFree i) (hid : ∀ x, t.idOf x = s.idOf x)
    (hslots : t.slots = s.slots) (hbindings : t.bindings = s.bindings)
    (hwork : t.work = s.work) : t.IdFree i := by
  unfold IdFree
  simp only [hid, hslots, hbindings, hwork]
  exact h

/-- An object whose id is free commands it. -/
theorem IdFree.commands {o : Oid} (h : s.IdFree (s.idOf o)) : s.Commands o :=
  ⟨fun b hb hsame => absurd hsame (h.2.1 b hb),
    fun b hb y hy hsame => absurd hsame (h.2.2 b hb y (object?_of_bound? hy))⟩

/-- An object of a free id has no entry. -/
theorem IdFree.lookup {o : Oid} (h : s.IdFree (s.idOf o)) : s.slots.lookup o = none := by
  rw [AList.lookup_eq_none]
  exact fun hmem => h.1 o (AList.mem_keys.mp hmem) rfl

/-- Nothing is to be bound for it. -/
theorem IdFree.not_bound {o : Oid} (h : s.IdFree (s.idOf o)) : ∀ b ∈ s.work, o ∉ b.bound? :=
  fun b hb ho => h.2.2 b hb o (object?_of_bound? ho) rfl

/-- `start` of an object whose id is free, on each of its ways out.
SOURCE: KlipperInstance.kt:46-133 -/
theorem SlotInv.start (h : SlotInv s) {o : Oid} (ho : o < s.created) (dirs : Dirs)
    (hfree : s.stateOf o = .idle → s.IdFree (s.idOf o)) : SlotInv (s.start o dirs).1 := by
  have hstarting : SlotInv (s.notifyStateChanged o .starting) :=
    h.notifyStateChanged o .starting fun hst => by
      rcases hst with hst | hst <;> cases hst
  have hfree' : s.stateOf o = .idle → (s.notifyStateChanged o .starting).IdFree (s.idOf o) :=
    fun hidle => (hfree hidle).congr (fun x => idOf_notifyStateChanged s o x .starting) rfl
      (notifyStateChanged_bindings s o .starting) (work_notifyStateChanged o .starting)
  rcases start_cases s o dirs with ⟨-, heq⟩ | ⟨hidle, -, heq⟩ | ⟨hidle, -, -, -, heq⟩ |
    ⟨k, hidle, -, -, hpick, heq⟩
  · rw [heq]
    exact h
  · rw [heq]
    have hfree' := hfree' hidle
    rw [← idOf_notifyStateChanged s o o .starting] at hfree'
    exact hstarting.stop (by simpa using ho) fun _ => hfree'.commands
  · rw [heq]
    have hfree' := hfree' hidle
    rw [← idOf_notifyStateChanged s o o .starting] at hfree'
    have hmodify : SlotInv ((s.notifyStateChanged o .starting).modify o
        fun i => { i with slot := -1 }) :=
      hstarting.quiet (Quiet.modify hstarting rfl (.inr ⟨hfree'.lookup, hfree'.not_bound⟩)
        (.inl fun _ => rfl) (.inl rfl))
    exact hmodify
  · rw [heq]
    have hfree' := hfree' hidle
    rw [← idOf_notifyStateChanged s o o .starting] at hfree'
    obtain ⟨hservice, hnew⟩ := pickSlot_some hpick
    set u := (s.notifyStateChanged o .starting).modify o fun i => { i with slot := k } with hu
    have hmodify : SlotInv u :=
      hstarting.quiet (Quiet.modify hstarting rfl (.inr ⟨hfree'.lookup, hfree'.not_bound⟩)
        (.inl fun _ => rfl) (.inl rfl))
    have hid : ∀ x, u.idOf x = (s.notifyStateChanged o .starting).idOf x :=
      fun x => idOf_modify _ o x _ fun _ => rfl
    have hslot : (u.heap o).slot = k := by
      rw [hu, modify_heap, Function.update_self]
    have hst : u.stateOf o = .starting := by
      rw [hu, stateOf, modify_heap, Function.update_self]
      exact (stateOf_notifyStateChanged s o o .starting).trans (if_pos rfl)
    have hufree : u.IdFree (u.idOf o) := by
      rw [hid]
      exact hfree'.congr hid rfl rfl rfl
    exact hmodify.book (s.idOf o) (by simpa [hu] using ho) hufree hservice hnew hslot hst

/-! ## The posted blocks -/

/-- Running a block about the servers, which no instance sees. -/
theorem SlotInv.same (h : SlotInv s) (hsame : SameInstances s t) : SlotInv t := by
  refine h.quiet (Quiet.of_eq h hsame.heap hsame.created hsame.lookup ?_ hsame.bindings)
  rw [work, hsame.queue, work]

/-- The block of `stop` at the head of the queue.
SOURCE: KlipperInstance.kt:140-163 -/
theorem SlotInv.runUnbind (h : SlotInv s) {o : Oid} {q : List Block}
    (hq : s.queue = .unbind o :: q) :
    SlotInv (({ s with queue := q } : Registry).runUnbind o) := by
  set p : Registry := { s with queue := q } with hp
  obtain ⟨hrel, -, hbind⟩ := runUnbind_spec (s := p) (o := o)
  set u := p.runUnbind o with hu
  obtain ⟨hpop, hno, hnone⟩ := h.popUnbind hq (t := { p with
    bindings := p.bindings.filter fun b => ¬p.Holds o b.conn }) rfl
  set v : Registry := { p with bindings := p.bindings.filter fun b => ¬p.Holds o b.conn } with hv
  have hvu : ∀ x, u.idOf x = v.idOf x := hrel.idOf
  -- the entries go first, when the object has become idle
  have hstruck : SlotInv { v with slots := u.slots } := by
    rcases hrel.state with ⟨-, hl⟩ | ⟨-, hl⟩
    · exact hpop.quiet (Quiet.of_eq hpop rfl rfl hl rfl rfl)
    · exact hpop.strike hno hl
  have hkey : ∀ x k, u.slots.lookup x = some k → u.stateOf x = v.stateOf x := by
    intro x k hx
    by_cases hxo : x = o
    · subst hxo
      rcases hrel.state with ⟨hst, -⟩ | ⟨-, hl⟩
      · exact hst
      · rw [hl, if_pos rfl] at hx
        cases hx
    · rw [stateOf, hrel.heap_ne x hxo]
      rfl
  have hslot : ∀ x, (u.heap x).slot = (v.heap x).slot := by
    intro x
    by_cases hxo : x = o
    · subst hxo
      obtain ⟨st, link, he⟩ := hrel.heap_self
      rw [he]
    · rw [hrel.heap_ne x hxo]
  have hwork : u.work = v.work := by
    obtain ⟨n, hn⟩ := hrel.queue
    unfold work
    rw [hn, List.filter_append, List.filter_replicate]
    simp [Block.object?, hv]
  refine hstruck.quiet ⟨le_of_eq hrel.created.symm, fun x _ => hvu x, fun x _ _ => hslot x,
    fun _ _ x _ => hslot x, ?_, ?_, ?_, fun _ => rfl, hwork, by rw [hbind]⟩
  · intro x _ b hb hsame
    by_cases hxo : x = o
    · subst hxo
      exact absurd hsame (hnone b hb)
    · rw [hrel.heap_ne x hxo]
  · intro x k hx
    rw [hkey x k hx]
    exact hstruck.key_active x k hx
  · intro x k hx hst
    exact .inl (hkey x k hx ▸ hst)

/-- **A posted block** keeps the ledger true.
SOURCE: KlipperInstance.kt:93, 140, 194, 196 -/
theorem SlotInv.runBlock (h : SlotInv s) {b : Block} {q : List Block} (hq : s.queue = b :: q) :
    SlotInv (({ s with queue := q } : Registry).runBlock b) := by
  have hpop : b.object? = none → SlotInv { s with queue := q } := by
    intro hb
    refine h.quiet (Quiet.of_eq h rfl rfl (fun _ => rfl) ?_ rfl)
    unfold work
    rw [hq, List.filter_cons_of_neg (by simp [hb])]
  cases b with
  | bind o n => exact h.runBind hq
  | unbind o => exact h.runUnbind hq
  | stopServers =>
    have hpop := hpop rfl
    exact hpop.same (stopServers_same _ hpop.key_active)
  | bindServers => exact (hpop rfl).same (runBindServers_same _)

/-! ## The callbacks -/

/-- The ledger does not see whether a binding is connected. -/
theorem Quiet.setConnected (h : SlotInv s) (c : Conn) (connected : Bool) :
    Quiet s (s.setConnected c connected) := by
  refine ⟨le_rfl, fun _ _ => rfl, fun _ _ _ => rfl, fun _ _ _ _ => rfl, ?_,
    h.key_active, fun _ _ _ hst => .inl hst, fun _ => rfl, rfl, ?_⟩
  · exact fun _ _ _ _ _ => rfl
  · rw [setConnected_bindings, List.map_map]
    refine List.map_congr_left fun b _ => ?_
    simp only [Function.comp_apply]
    split <;> rfl

/-- `onServiceConnected` never touches the ledger.
SOURCE: KlipperInstance.kt:99-104, 118-123 -/
theorem SlotInv.onServiceConnected (h : SlotInv s) (b : Binding) :
    SlotInv (s.onServiceConnected b) := by
  have hset := h.quiet (Quiet.setConnected h b.conn true)
  have hlink : SlotInv ((s.setConnected b.conn true).modifyLink b.owner b.svc
      fun l => { l with connected := true }) := by
    refine hset.quiet (Quiet.modify hset rfl (.inl rfl) (.inl fun svc => ?_) (.inl rfl))
    by_cases hsvc : svc = b.svc
    · subst hsvc
      simp
    · simp [Function.update_of_ne hsvc]
  unfold Registry.onServiceConnected
  simp only
  split
  · exact hlink.notifyStateChanged b.owner .running fun hst => by
      rcases hst with hst | hst <;> cases hst
  · exact hlink

/-- `onServiceDisconnected` of an object with no unbind block queued, whose other service is
up or whose id is about to be unbound by another object.
SOURCE: KlipperInstance.kt:106-108, 125-127, 166-180 -/
theorem SlotInv.onServiceDisconnected (h : SlotInv s) (b : Binding)
    (hqueue : .unbind b.owner ∉ s.work)
    (hother : ((s.heap b.owner).link b.svc.other).connected = true ∨
      s.StopPending (s.idOf b.owner)) :
    SlotInv (s.onServiceDisconnected b) := by
  have hset := h.quiet (Quiet.setConnected h b.conn false)
  have hlink : SlotInv ((s.setConnected b.conn false).modifyLink b.owner b.svc
      fun l => { l with connection := none, connected := false }) :=
    hset.quiet (Quiet.modify hset rfl (.inl rfl) (.inr hqueue) (.inl rfl))
  unfold Registry.onServiceDisconnected
  rw [onUnbound_eq]
  split
  · exact hlink
  · next hne =>
    refine hlink.notifyStateChanged b.owner .idle fun _ => hlink.not_leased ?_
    have hpending := hother.resolve_left hne
    obtain ⟨c, hc, o, ho, hid⟩ := hpending
    have hids : ∀ x, ((s.setConnected b.conn false).modifyLink b.owner b.svc
        fun l => { l with connection := none, connected := false }).idOf x = s.idOf x :=
      fun x => idOf_modify _ _ x _ fun _ => rfl
    exact ⟨c, hc, o, ho, by rw [hids, hids, hid]⟩

end Registry

end Cream.Model
