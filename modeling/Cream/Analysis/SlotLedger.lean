import Cream.Library.Lease
import Cream.Analysis.RegistrySpec

/-!
# The slot ledger

The keys of `slots` are a ledger of slots in use, kept ahead of the facts: `start` books a
slot before the block that binds runs, and a reload strikes an entry out before the block
that unbinds runs. `SlotInv` says how the ledger and the facts agree. Read the queue as a queue
of leases (`Cream.Library.Lease`), a bind block acquiring its object's slot for the id and
an unbind block releasing all the id has; then every slot that is leased at the end of the
queue is booked under an object with that id, and no slot is ever leased to two ids.

The operations are built from a few elementary changes of the registry, and there is one
theorem `SlotInv.*` for each.
-/

set_option autoImplicit false

namespace Cream.Model

open Cream.Library.Lease

/-- The object a block is about. -/
def Block.object? : Block → Option Oid
  | .bind o _ => some o
  | .unbind o => some o
  | _ => none

/-- The object a bind block binds. -/
def Block.bound? : Block → Option Oid
  | .bind o _ => some o
  | _ => none

/-- A binding, whatever Android has reported about its service. -/
def Binding.forget (b : Binding) : Binding := { b with connected := false }

namespace Registry

/-- The queued blocks that are about an instance. -/
def work (s : Registry) : List Block := s.queue.filter fun b => b.object?.isSome

/-- No object with this id has a slot, a binding or a queued block. -/
def IdFree (s : Registry) (i : String) : Prop :=
  (∀ y ∈ s.slots.keys, s.idOf y ≠ i) ∧ (∀ b ∈ s.bindings, s.idOf b.owner ≠ i) ∧
    ∀ b ∈ s.work, ∀ o ∈ b.object?, s.idOf o ≠ i

instance (s : Registry) (i : String) : Decidable (s.IdFree i) :=
  inferInstanceAs (Decidable (_ ∧ _ ∧ _))

/-- The object holds the connection of every binding of its id, and no other object with
its id is about to bind. -/
def Commands (s : Registry) (o : Oid) : Prop :=
  (∀ b ∈ s.bindings, s.idOf b.owner = s.idOf o →
    ((s.heap o).link b.svc).connection = some b.conn) ∧
      ∀ b ∈ s.work, ∀ y ∈ b.bound?, s.idOf y = s.idOf o → y = o

instance (s : Registry) (o : Oid) : Decidable (s.Commands o) :=
  inferInstanceAs (Decidable (_ ∧ _))

/-- What a block does to the leases of slots. -/
def leaseOp (s : Registry) : Block → Option (Op String Int)
  | .bind o _ => some (.acquire (s.idOf o) (s.heap o).slot)
  | .unbind o => some (.release (s.idOf o))
  | _ => none

/-- The queue as a queue of leases. -/
def ops (s : Registry) : List (Op String Int) := s.work.filterMap s.leaseOp

/-- The slots the ids are bound at now. -/
def held (s : Registry) : Set (String × Int) :=
  {p | ∃ b ∈ s.bindings, p = (s.idOf b.owner, b.slot)}

/-- The id is bound at the slot once the queue has run. -/
def Leased (s : Registry) (i : String) (k : Int) : Prop := (i, k) ∈ after s.ops s.held

/-- The invariant of the slots: the objects referred to exist, the ledger is exact about
its own objects, the queue is orderly, and the leases are booked. -/
structure SlotInv (s : Registry) : Prop where
  live_key : ∀ o k, s.slots.lookup o = some k → o < s.created
  live_work : ∀ b ∈ s.work, ∀ o ∈ b.object?, o < s.created
  live_bindings : ∀ b ∈ s.bindings, b.owner < s.created
  key_slot : ∀ o k, s.slots.lookup o = some k → (s.heap o).slot = k
  key_active : ∀ o k, s.slots.lookup o = some k → s.stateOf o ≠ .idle
  key_unique : ∀ o o' k k', s.slots.lookup o = some k → s.slots.lookup o' = some k' →
    s.idOf o = s.idOf o' → o = o'
  /-- a bind block is the first block of its id -/
  ordered : s.work.Pairwise fun b c => ∀ x ∈ b.object?, ∀ o ∈ c.bound?, s.idOf x ≠ s.idOf o
  bind_service : ∀ b ∈ s.work, ∀ o ∈ b.bound?, HasService (s.heap o).slot
  bind_first : ∀ b ∈ s.work, ∀ o ∈ b.bound?, ∀ c ∈ s.bindings, s.idOf c.owner ≠ s.idOf o
  unbind_all : ∀ o, .unbind o ∈ s.work → s.Commands o
  service : ∀ b ∈ s.bindings, HasService b.slot
  single : ∀ i svc, s.bindings.countP (fun b => s.idOf b.owner = i ∧ b.svc = svc) ≤ 1
  safe : Safe s.ops s.held
  booked : ∀ i k, s.Leased i k → ∃ o, s.idOf o = i ∧ s.slots.lookup o = some k
  /-- a stopping key has its unbind block queued, or nothing to unbind -/
  stopping : ∀ o k, s.slots.lookup o = some k → s.stateOf o = .stopping →
    ∀ l, ¬s.Leased (s.idOf o) l

variable {s t : Registry}

/-- The invariant holds of an empty registry. -/
theorem slotInv_empty : SlotInv empty where
  live_key o k h := by cases h
  live_work b h := by cases h
  live_bindings b h := by cases h
  key_slot o k h := by cases h
  key_active o k h := by cases h
  key_unique o o' k k' h := by cases h
  ordered := List.Pairwise.nil
  bind_service b h := by cases h
  bind_first b h := by cases h
  unbind_all o h := by cases h
  service b h := by cases h
  single i svc := Nat.zero_le _
  safe := by
    rintro i j k ⟨b, hb, -⟩
    cases hb
  booked := by
    rintro i k ⟨b, hb, -⟩
    cases hb
  stopping o k h := by cases h

/-! ## Reading the invariant -/

/-- The work of a registry are the queued blocks about an object. -/
theorem mem_work {b : Block} : b ∈ s.work ↔ b ∈ s.queue ∧ b.object?.isSome := by
  simp [work]

/-- A block that binds for an object is about it. -/
theorem object?_of_bound? {b : Block} {o : Oid} (h : o ∈ b.bound?) : o ∈ b.object? := by
  cases b <;> simp_all [Block.bound?, Block.object?]

/-- Releases are unbind blocks and acquisitions are bind blocks. -/
theorem mem_ops {op : Op String Int} :
    op ∈ s.ops ↔ (∃ o n, .bind o n ∈ s.work ∧ op = .acquire (s.idOf o) (s.heap o).slot) ∨
      ∃ o, .unbind o ∈ s.work ∧ op = .release (s.idOf o) := by
  unfold ops
  rw [List.mem_filterMap]
  constructor
  · rintro ⟨b, hb, hop⟩
    cases b with
    | bind o n =>
      simp only [leaseOp, Option.some.injEq] at hop
      exact .inl ⟨o, n, hb, hop.symm⟩
    | unbind o =>
      simp only [leaseOp, Option.some.injEq] at hop
      exact .inr ⟨o, hb, hop.symm⟩
    | stopServers => simp [leaseOp] at hop
    | bindServers => simp [leaseOp] at hop
  · rintro (⟨o, n, hb, rfl⟩ | ⟨o, hb, rfl⟩)
    · exact ⟨_, hb, rfl⟩
    · exact ⟨_, hb, rfl⟩

/-- An id with an unbind block queued has no lease at the end of the queue. -/
theorem SlotInv.not_leased_of_unbind (h : SlotInv s) {o : Oid} (ho : .unbind o ∈ s.work) (k : Int) :
    ¬s.Leased (s.idOf o) k := by
  obtain ⟨pre, post, hwork⟩ := List.append_of_mem ho
  have hops : s.ops = pre.filterMap s.leaseOp ++ .release (s.idOf o) :: post.filterMap s.leaseOp := by
    unfold ops
    rw [hwork, List.filterMap_append, List.filterMap_cons]
    rfl
  have hord := h.ordered
  rw [hwork, List.pairwise_append, List.pairwise_cons] at hord
  unfold Leased
  rw [hops]
  refine not_mem_after_release (fun l hl => ?_) k
  obtain ⟨b, hb, hop⟩ := List.mem_filterMap.mp hl
  cases b with
  | bind x n =>
    simp only [leaseOp, Option.some.injEq, Op.acquire.injEq] at hop
    exact hord.2.1.1 _ hb o (by simp [Block.object?]) x (by simp [Block.bound?]) hop.1.symm
  | unbind x => simp [leaseOp] at hop
  | stopServers => simp [leaseOp] at hop
  | bindServers => simp [leaseOp] at hop

/-- A free id has no lease. -/
theorem IdFree.not_leased {i : String} (h : s.IdFree i) (k : Int) : ¬s.Leased i k := by
  intro hl
  have hacq : ∀ l, Op.acquire i l ∉ s.ops := by
    intro l hop
    rcases mem_ops.mp hop with ⟨o, n, hb, heq⟩ | ⟨o, -, heq⟩
    · cases heq
      exact h.2.2 _ hb o (by simp [Block.object?]) rfl
    · cases heq
  obtain ⟨b, hb, heq⟩ := mem_of_mem_after hacq hl
  cases heq
  exact h.2.1 b hb rfl

/-! ## Changes the ledger does not see -/

/-- `t` differs from `s` in nothing the ledger depends on, except that keys may change
between the states other than idle. -/
structure Quiet (s t : Registry) : Prop where
  created : s.created ≤ t.created
  id : ∀ x < s.created, t.idOf x = s.idOf x
  slot_key : ∀ x k, s.slots.lookup x = some k → (t.heap x).slot = (s.heap x).slot
  slot_bind : ∀ b ∈ s.work, ∀ o ∈ b.bound?, (t.heap o).slot = (s.heap o).slot
  connection : ∀ x, .unbind x ∈ s.work → ∀ b ∈ s.bindings, s.idOf b.owner = s.idOf x →
    ((t.heap x).link b.svc).connection = ((s.heap x).link b.svc).connection
  active : ∀ x k, s.slots.lookup x = some k → t.stateOf x ≠ .idle
  stopping : ∀ x k, s.slots.lookup x = some k → t.stateOf x = .stopping →
    s.stateOf x = .stopping ∨ ∀ l, ¬s.Leased (s.idOf x) l
  lookup : ∀ x, t.slots.lookup x = s.slots.lookup x
  work : t.work = s.work
  bindings : t.bindings.map Binding.forget = s.bindings.map Binding.forget

/-- The bindings are the same ones. -/
theorem Quiet.mem_bindings (q : Quiet s t) {b : Binding} (hb : b ∈ t.bindings) :
    ∃ c ∈ s.bindings, c.conn = b.conn ∧ c.owner = b.owner ∧ c.svc = b.svc ∧ c.slot = b.slot := by
  have hmem : b.forget ∈ s.bindings.map Binding.forget :=
    q.bindings ▸ List.mem_map_of_mem hb
  obtain ⟨c, hc, heq⟩ := List.mem_map.mp hmem
  cases b
  cases c
  simp only [Binding.forget, Binding.mk.injEq] at heq
  exact ⟨_, hc, heq.1, heq.2.1, heq.2.2.1, heq.2.2.2.1⟩

/-- They are the same ones the other way round. -/
theorem Quiet.mem_bindings' (q : Quiet s t) {c : Binding} (hc : c ∈ s.bindings) :
    ∃ b ∈ t.bindings, c.conn = b.conn ∧ c.owner = b.owner ∧ c.svc = b.svc ∧ c.slot = b.slot := by
  have hmem : c.forget ∈ t.bindings.map Binding.forget :=
    q.bindings ▸ List.mem_map_of_mem hc
  obtain ⟨b, hb, heq⟩ := List.mem_map.mp hmem
  cases b
  cases c
  simp only [Binding.forget, Binding.mk.injEq] at heq
  exact ⟨_, hb, heq.1.symm, heq.2.1.symm, heq.2.2.1.symm, heq.2.2.2.1.symm⟩

/-- The queue of leases is the same. -/
theorem Quiet.ops_eq (h : SlotInv s) (q : Quiet s t) : t.ops = s.ops := by
  unfold ops
  rw [q.work]
  refine List.filterMap_congr fun b hb => ?_
  have hid : ∀ o ∈ b.object?, t.idOf o = s.idOf o := fun o ho => q.id o (h.live_work b hb o ho)
  cases b with
  | bind o n =>
    have hslot := q.slot_bind _ hb o (by simp [Block.bound?])
    simp [leaseOp, hslot, hid o (by simp [Block.object?])]
  | unbind o => simp [leaseOp, hid o (by simp [Block.object?])]
  | stopServers => rfl
  | bindServers => rfl

/-- The slots that ids are bound at are the same. -/
theorem Quiet.held_eq (h : SlotInv s) (q : Quiet s t) : t.held = s.held := by
  ext p
  constructor
  · rintro ⟨b, hb, rfl⟩
    obtain ⟨c, hc, -, hown, -, hslot⟩ := q.mem_bindings hb
    refine ⟨c, hc, ?_⟩
    rw [← hown, ← hslot, q.id _ (h.live_bindings c hc)]
  · rintro ⟨c, hc, rfl⟩
    obtain ⟨b, hb, -, hown, -, hslot⟩ := q.mem_bindings' hc
    refine ⟨b, hb, ?_⟩
    rw [← hown, ← hslot, q.id _ (h.live_bindings c hc)]

/-- **The invariant does not see quiet changes.** -/
theorem SlotInv.quiet (h : SlotInv s) (q : Quiet s t) : SlotInv t := by
  have hops := q.ops_eq h
  have hheld := q.held_eq h
  have hleased : ∀ i k, t.Leased i k ↔ s.Leased i k := by
    intro i k
    unfold Leased
    rw [hops, hheld]
  have hkey : ∀ o k, t.slots.lookup o = some k → s.slots.lookup o = some k ∧
      t.idOf o = s.idOf o := by
    intro o k ho
    rw [q.lookup] at ho
    exact ⟨ho, q.id o (h.live_key o k ho)⟩
  have hwork : ∀ b ∈ t.work, b ∈ s.work ∧ ∀ o ∈ b.object?, t.idOf o = s.idOf o := by
    intro b hb
    rw [q.work] at hb
    exact ⟨hb, fun o ho => q.id o (h.live_work b hb o ho)⟩
  constructor
  case live_key =>
    intro o k ho
    exact (h.live_key o k (hkey o k ho).1).trans_le q.created
  case live_work =>
    intro b hb o ho
    exact (h.live_work b (hwork b hb).1 o ho).trans_le q.created
  case live_bindings =>
    intro b hb
    obtain ⟨c, hc, -, hown, -, -⟩ := q.mem_bindings hb
    exact hown ▸ (h.live_bindings c hc).trans_le q.created
  case key_slot =>
    intro o k ho
    rw [q.slot_key o k (hkey o k ho).1]
    exact h.key_slot o k (hkey o k ho).1
  case key_active =>
    intro o k ho
    exact q.active o k (hkey o k ho).1
  case key_unique =>
    intro o o' k k' ho ho' hid
    rw [(hkey o k ho).2, (hkey o' k' ho').2] at hid
    exact h.key_unique o o' k k' (hkey o k ho).1 (hkey o' k' ho').1 hid
  case ordered =>
    rw [q.work]
    refine h.ordered.imp_of_mem fun {b c} hb hc hbc x hx o ho => ?_
    rw [q.id x (h.live_work b hb x hx), q.id o (h.live_work c hc o (object?_of_bound? ho))]
    exact hbc x hx o ho
  case bind_service =>
    intro b hb o ho
    rw [q.slot_bind b (hwork b hb).1 o ho]
    exact h.bind_service b (hwork b hb).1 o ho
  case bind_first =>
    intro b hb o ho c hc
    obtain ⟨c', hc', -, hown, -, -⟩ := q.mem_bindings hc
    rw [(hwork b hb).2 o (object?_of_bound? ho), ← hown, q.id _ (h.live_bindings c' hc')]
    exact h.bind_first b (hwork b hb).1 o ho c' hc'
  case unbind_all =>
    intro o ho
    have hcmd := h.unbind_all o (hwork _ ho).1
    have hid := (hwork _ ho).2 o (by simp [Block.object?])
    constructor
    · intro b hb hsame
      obtain ⟨c, hc, hconn, hown, hsvc, -⟩ := q.mem_bindings hb
      rw [hid, ← hown, q.id _ (h.live_bindings c hc)] at hsame
      rw [← hsvc, ← hconn, q.connection o (hwork _ ho).1 c hc hsame]
      exact hcmd.1 c hc hsame
    · intro b hb y hy hsame
      rw [hid, (hwork b hb).2 y (object?_of_bound? hy)] at hsame
      exact hcmd.2 b (hwork b hb).1 y hy hsame
  case service =>
    intro b hb
    obtain ⟨c, hc, -, -, -, hslot⟩ := q.mem_bindings hb
    exact hslot ▸ h.service c hc
  case single =>
    intro i svc
    have hforget : ∀ l : List Binding,
        l.countP (fun b => s.idOf b.owner = i ∧ b.svc = svc) =
          (l.map Binding.forget).countP (fun b => s.idOf b.owner = i ∧ b.svc = svc) := by
      intro l
      rw [List.countP_map]
      rfl
    have hcount : t.bindings.countP (fun b => t.idOf b.owner = i ∧ b.svc = svc) =
        t.bindings.countP (fun b => s.idOf b.owner = i ∧ b.svc = svc) := by
      refine List.countP_congr fun b hb => ?_
      obtain ⟨c, hc, -, hown, -, -⟩ := q.mem_bindings hb
      rw [← hown, q.id _ (h.live_bindings c hc)]
    rw [hcount, hforget, q.bindings, ← hforget]
    exact h.single i svc
  case safe =>
    rw [hops, hheld]
    exact h.safe
  case booked =>
    intro i k hl
    obtain ⟨o, hid, ho⟩ := h.booked i k ((hleased i k).mp hl)
    exact ⟨o, (q.id o (h.live_key o k ho)).trans hid, (q.lookup o).trans ho⟩
  case stopping =>
    intro o k ho hst l hl
    rw [(hkey o k ho).2, hleased] at hl
    rcases q.stopping o k (hkey o k ho).1 hst with hstop | hno
    · exact h.stopping o k (hkey o k ho).1 hstop l hl
    · exact hno l hl

/-! ## The elementary changes -/

/-- The entries of an id that is not leased may be struck out.
SOURCE: KlipperInstance.kt:188-193, 275 -/
theorem SlotInv.strike (h : SlotInv s) {i : String} (hno : ∀ k, ¬s.Leased i k)
    {m : AList fun _ : Oid => Int}
    (hm : ∀ x, m.lookup x = if s.idOf x = i then none else s.slots.lookup x) :
    SlotInv { s with slots := m } := by
  have hkey : ∀ o k, m.lookup o = some k → s.slots.lookup o = some k := by
    intro o k ho
    rw [hm] at ho
    split at ho
    · cases ho
    · exact ho
  refine { h with
    live_key := fun o k ho => h.live_key o k (hkey o k ho)
    key_slot := fun o k ho => h.key_slot o k (hkey o k ho)
    key_active := fun o k ho => h.key_active o k (hkey o k ho)
    key_unique := fun o o' k k' ho ho' => h.key_unique o o' k k' (hkey o k ho) (hkey o' k' ho')
    stopping := fun o k ho => h.stopping o k (hkey o k ho)
    booked := ?_ }
  intro j k hl
  obtain ⟨o, hid, ho⟩ := h.booked j k hl
  have hne : s.idOf o ≠ i := by
    rintro rfl
    subst hid
    exact hno k hl
  refine ⟨o, hid, ?_⟩
  rw [hm, if_neg hne]
  exact ho

/-- A block that is posted is work when it is about an object. -/
theorem work_post (b : Block) :
    (s.post b).work = s.work ++ if b.object?.isSome then [b] else [] := by
  unfold work
  rw [post_queue, List.filter_append]
  cases h : b.object?.isSome <;> simp [h]

/-- A step that posts an instance's block adds the block's lease at the end. -/
theorem ops_post (b : Block) : (s.post b).ops = s.ops ++ (s.leaseOp b).toList := by
  have hsame : (s.post b).leaseOp = s.leaseOp := rfl
  unfold ops
  rw [work_post, List.filterMap_append, hsame]
  cases b <;> rfl

/-- An object that commands its id may post its unbind block.
SOURCE: KlipperInstance.kt:140 -/
theorem SlotInv.postUnbind (h : SlotInv s) {o : Oid} (ho : o < s.created)
    (hcmd : s.Commands o) : SlotInv (s.post (.unbind o)) := by
  have hwork : (s.post (.unbind o)).work = s.work ++ [.unbind o] := work_post _
  have hops : (s.post (.unbind o)).ops = s.ops ++ [.release (s.idOf o)] := ops_post _
  have hbinds : ∀ b ∈ (s.post (.unbind o)).work, ∀ y ∈ b.bound?, b ∈ s.work := by
    intro b hb y hy
    rw [hwork, List.mem_append, List.mem_singleton] at hb
    rcases hb with hb | rfl
    · exact hb
    · cases hy
  have hleased : ∀ i k, (s.post (.unbind o)).Leased i k → s.Leased i k ∧ i ≠ s.idOf o := by
    intro i k hl
    unfold Leased at hl ⊢
    rw [hops, after_append] at hl
    exact mem_apply_release.mp hl
  refine { h with
    live_work := ?_, ordered := ?_, unbind_all := ?_, safe := ?_, booked := ?_, stopping := ?_
    bind_service := fun b hb y hy => h.bind_service b (hbinds b hb y hy) y hy
    bind_first := fun b hb y hy => h.bind_first b (hbinds b hb y hy) y hy }
  · intro b hb x hx
    rw [hwork, List.mem_append, List.mem_singleton] at hb
    rcases hb with hb | rfl
    · exact h.live_work b hb x hx
    · simp only [Block.object?, Option.mem_some] at hx
      exact hx ▸ ho
  · rw [hwork]
    refine List.pairwise_append.mpr ⟨h.ordered, List.pairwise_singleton _ _, ?_⟩
    intro b _ c hc x _ y hy
    rw [List.mem_singleton] at hc
    subst hc
    cases hy
  · intro x hx
    have hcmdx : s.Commands x := by
      rw [hwork, List.mem_append, List.mem_singleton] at hx
      rcases hx with hx | hx
      · exact h.unbind_all x hx
      · cases hx
        exact hcmd
    exact ⟨hcmdx.1, fun b hb y hy => hcmdx.2 b (hbinds b hb y hy) y hy⟩
  · rw [hops]
    exact h.safe.release _
  · intro i k hl
    exact h.booked i k (hleased i k hl).1
  · intro x k hx hst l hl
    exact h.stopping x k hx hst l (hleased _ l hl).1

/-- A free id may book a slot that nobody has booked and post the block that binds there.
SOURCE: KlipperInstance.kt:77-93 -/
theorem SlotInv.book (h : SlotInv s) {o : Oid} {k : Int} (n : String) (ho : o < s.created)
    (hfree : s.IdFree (s.idOf o)) (hk : HasService k) (hnew : ∀ y, s.slots.lookup y ≠ some k)
    (hslot : (s.heap o).slot = k) (hst : s.stateOf o = .starting) :
    SlotInv ({ s with slots := s.slots.insert o k }.post (.bind o n)) := by
  set t : Registry := { s with slots := s.slots.insert o k }.post (.bind o n) with ht
  have hwork : t.work = s.work ++ [.bind o n] := work_post _
  have hops : t.ops = s.ops ++ [.acquire (s.idOf o) k] := by
    have hpost := ops_post (s := { s with slots := s.slots.insert o k }) (.bind o n)
    rw [ht, hpost, ← hslot]
    rfl
  have hlook : ∀ x, t.slots.lookup x = if x = o then some k else s.slots.lookup x := by
    intro x
    by_cases hx : x = o
    · subst hx
      exact (AList.lookup_insert _).trans (if_pos rfl).symm
    · exact (AList.lookup_insert_ne hx).trans (if_neg hx).symm
  have hkey : ∀ x l, t.slots.lookup x = some l → (x = o ∧ l = k) ∨
      (s.idOf x ≠ s.idOf o ∧ s.slots.lookup x = some l) := by
    intro x l hx
    rw [hlook] at hx
    split at hx
    · next he => exact .inl ⟨he, (Option.some.inj hx).symm⟩
    · exact .inr ⟨hfree.1 x ((mem_keys_iff_lookup x).mpr ⟨l, hx⟩), hx⟩
  have hleased : ∀ i l, t.Leased i l ↔ (i = s.idOf o ∧ l = k) ∨ s.Leased i l := by
    intro i l
    unfold Leased
    rw [hops, after_append]
    exact mem_apply_acquire
  have hnoo : ∀ l, ¬s.Leased (s.idOf o) l := hfree.not_leased
  refine { h with
    live_key := ?_, live_work := ?_, key_slot := ?_, key_active := ?_, key_unique := ?_
    ordered := ?_, bind_service := ?_, bind_first := ?_, unbind_all := ?_, safe := ?_
    booked := ?_, stopping := ?_ }
  · intro x l hx
    rcases hkey x l hx with ⟨rfl, rfl⟩ | ⟨-, hx⟩
    · exact ho
    · exact h.live_key x l hx
  · intro b hb x hx
    rw [hwork, List.mem_append, List.mem_singleton] at hb
    rcases hb with hb | rfl
    · exact h.live_work b hb x hx
    · simp only [Block.object?, Option.mem_some] at hx
      exact hx ▸ ho
  · intro x l hx
    rcases hkey x l hx with ⟨rfl, rfl⟩ | ⟨-, hx⟩
    · exact hslot
    · exact h.key_slot x l hx
  · intro x l hx
    rcases hkey x l hx with ⟨rfl, rfl⟩ | ⟨-, hx⟩
    · exact fun hidle => State.noConfusion (hst.symm.trans hidle)
    · exact h.key_active x l hx
  · intro x y l l' hx hy hid
    rcases hkey x l hx with ⟨rfl, -⟩ | ⟨hnx, hx⟩ <;> rcases hkey y l' hy with ⟨rfl, -⟩ | ⟨hny, hy⟩
    · rfl
    · exact absurd hid.symm hny
    · exact absurd hid hnx
    · exact h.key_unique x y l l' hx hy hid
  · rw [hwork]
    refine List.pairwise_append.mpr ⟨h.ordered, List.pairwise_singleton _ _, ?_⟩
    intro b hb c hc x hx y hy
    rw [List.mem_singleton] at hc
    subst hc
    simp only [Block.bound?, Option.mem_some] at hy
    exact hy ▸ hfree.2.2 b hb x hx
  · intro b hb x hx
    rw [hwork, List.mem_append, List.mem_singleton] at hb
    rcases hb with hb | rfl
    · exact h.bind_service b hb x hx
    · simp only [Block.bound?, Option.mem_some] at hx
      subst hx
      exact hslot.symm ▸ hk
  · intro b hb x hx
    rw [hwork, List.mem_append, List.mem_singleton] at hb
    rcases hb with hb | rfl
    · exact h.bind_first b hb x hx
    · simp only [Block.bound?, Option.mem_some] at hx
      exact hx ▸ hfree.2.1
  · intro x hx
    rw [hwork, List.mem_append, List.mem_singleton] at hx
    have hx : .unbind x ∈ s.work := hx.resolve_right Block.noConfusion
    have hcmd := h.unbind_all x hx
    refine ⟨hcmd.1, fun b hb y hy hid => ?_⟩
    rw [hwork, List.mem_append, List.mem_singleton] at hb
    rcases hb with hb | rfl
    · exact hcmd.2 b hb y hy hid
    · simp only [Block.bound?, Option.mem_some] at hy
      subst hy
      exact absurd hid.symm (hfree.2.2 _ hx x (by simp [Block.object?]))
  · rw [hops]
    refine h.safe.acquire fun j hj => ?_
    obtain ⟨y, -, hy⟩ := h.booked j k hj
    exact absurd hy (hnew y)
  · intro i l hl
    rcases (hleased i l).mp hl with ⟨rfl, rfl⟩ | hold
    · exact ⟨o, rfl, (hlook o).trans (if_pos rfl)⟩
    · obtain ⟨y, hid, hy⟩ := h.booked i l hold
      refine ⟨y, hid, ?_⟩
      rw [hlook, if_neg]
      · exact hy
      · rintro rfl
        exact hnoo l (hid.symm ▸ hold)
  · intro x l hx hstx l' hl'
    rcases hkey x l hx with ⟨rfl, rfl⟩ | ⟨hnx, hx⟩
    · exact State.noConfusion (hst.symm.trans hstx)
    · rcases (hleased _ l').mp hl' with ⟨hid, -⟩ | hl'
      · exact hnx hid
      · exact h.stopping x l hx hstx l' hl'

/-- The first block, when it is about an object, is the first of the work. -/
theorem work_pop {b : Block} {q : List Block} (hq : s.queue = b :: q) (hb : b.object?.isSome) :
    s.work = b :: ({ s with queue := q } : Registry).work := by
  unfold work
  rw [hq, List.filter_cons_of_pos (by simpa using hb)]

/-- What the ledger sees of the block of `start`: its object binds both services at its slot, and
nothing else changes. -/
structure Binds (s : Registry) (o : Oid) (n : String) (t : Registry) : Prop where
  work : s.work = .bind o n :: t.work
  slots : t.slots = s.slots
  created : t.created = s.created
  heap : ∀ x, x ≠ o → t.heap x = s.heap x
  slot : ∀ x, (t.heap x).slot = (s.heap x).slot
  state : ∀ x, t.stateOf x = s.stateOf x
  id : ∀ x, t.idOf x = s.idOf x
  new : ∀ b ∈ t.bindings, b ∈ s.bindings ∨ (b.owner = o ∧ b.slot = (s.heap o).slot ∧
    ((t.heap o).link b.svc).connection = some b.conn)
  count : ∀ i svc, t.bindings.countP (fun b => s.idOf b.owner = i ∧ b.svc = svc) =
    s.bindings.countP (fun b => s.idOf b.owner = i ∧ b.svc = svc) + if s.idOf o = i then 1 else 0

/-- What the block of `start` does when its slot has services.
SOURCE: KlipperInstance.kt:93-132 -/
theorem runBind_binds {o : Oid} {n : String} {q : List Block} (hq : s.queue = .bind o n :: q)
    (hservice : HasService (s.heap o).slot) :
    Binds s o n (({ s with queue := q } : Registry).runBind o n) := by
  obtain ⟨t, ht⟩ : ∃ t, t = ({ s with queue := q } : Registry).runBind o n := ⟨_, rfl⟩
  rw [← ht]
  have hself := runBind_self { s with queue := q } o n hservice
  rw [← ht] at hself
  dsimp only at hself
  rw [runBind_eq { s with queue := q } o n hservice] at ht
  have hheap : ∀ x, x ≠ o → t.heap x = s.heap x := by
    intro x hx
    rw [ht]
    exact Function.update_of_ne hx _ _
  have hsame : ∀ x, (t.heap x).slot = (s.heap x).slot ∧ t.stateOf x = s.stateOf x ∧
      t.idOf x = s.idOf x := by
    intro x
    unfold stateOf idOf
    by_cases hx : x = o
    · subst hx
      rw [hself]
      exact ⟨rfl, rfl, rfl⟩
    · rw [hheap x hx]
      exact ⟨rfl, rfl, rfl⟩
  constructor
  case work =>
    rw [work_pop hq rfl, ht]
    rfl
  case slots => rw [ht]
  case created => rw [ht]
  case heap => exact hheap
  case slot => exact fun x => (hsame x).1
  case state => exact fun x => (hsame x).2.1
  case id => exact fun x => (hsame x).2.2
  case new =>
    intro b hb
    have hmem : b ∈ s.bindings ∨
        b = ⟨s.nextConn, o, .klippy, (s.heap o).slot, n, false⟩ ∨
        b = ⟨s.nextConn + 1, o, .moonraker, (s.heap o).slot, n, false⟩ := by
      rw [ht] at hb
      simpa using hb
    rcases hmem with hb | rfl | rfl
    · exact .inl hb
    · exact .inr ⟨rfl, rfl, by simp only [hself]⟩
    · exact .inr ⟨rfl, rfl, by simp only [hself]⟩
  case count =>
    intro i svc
    rw [ht]
    simp only [List.countP_append]
    by_cases hi : s.idOf o = i
    · cases svc <;> simp [hi]
    · simp [hi]

/-- The block takes its lease from the head of the queue. -/
theorem Binds.ops {o : Oid} {n : String} (h : Binds s o n t) :
    s.ops = .acquire (s.idOf o) (s.heap o).slot :: t.ops := by
  have hlease : t.leaseOp = s.leaseOp := by
    funext b
    cases b <;> simp [leaseOp, h.id, h.slot]
  unfold Registry.ops
  rw [h.work, hlease]
  rfl

/-- What is bound afterwards was bound before, or is what the lease says. -/
theorem Binds.held {o : Oid} {n : String} (h : Binds s o n t) :
    t.held ⊆ (Op.acquire (s.idOf o) (s.heap o).slot).apply s.held := by
  rintro p ⟨b, hb, rfl⟩
  rw [h.id]
  refine mem_apply_acquire.mpr ?_
  rcases h.new b hb with hb | ⟨hown, hbslot, -⟩
  · exact .inr ⟨b, hb, rfl⟩
  · exact .inl ⟨by rw [hown], hbslot⟩

/-- Nothing is leased that was not. -/
theorem Binds.leased {o : Oid} {n : String} (h : Binds s o n t) {i : String} {k : Int}
    (hl : t.Leased i k) : s.Leased i k := by
  unfold Leased
  rw [h.ops]
  exact after_mono t.ops h.held hl

/-- The block of `start` may run: it turns the lease at the head of the queue into two
bindings its object holds.
SOURCE: KlipperInstance.kt:93-132 -/
theorem SlotInv.runBind (h : SlotInv s) {o : Oid} {n : String} {q : List Block}
    (hq : s.queue = .bind o n :: q) : SlotInv (({ s with queue := q } : Registry).runBind o n) := by
  have hhead : .bind o n ∈ s.work := work_pop hq rfl ▸ List.mem_cons_self
  have hservice : HasService (s.heap o).slot := h.bind_service _ hhead o rfl
  have hnone : ∀ c ∈ s.bindings, s.idOf c.owner ≠ s.idOf o := h.bind_first _ hhead o rfl
  have hbinds := runBind_binds hq hservice
  set t := ({ s with queue := q } : Registry).runBind o n
  have htail : ∀ b ∈ t.work, b ∈ s.work := fun b hb => hbinds.work ▸ List.mem_cons_of_mem _ hb
  have hord := h.ordered
  rw [hbinds.work, List.pairwise_cons] at hord
  constructor
  case live_key =>
    rw [hbinds.slots, hbinds.created]
    exact h.live_key
  case live_work =>
    rw [hbinds.created]
    exact fun b hb => h.live_work b (htail b hb)
  case live_bindings =>
    rw [hbinds.created]
    intro b hb
    rcases hbinds.new b hb with hb | ⟨hown, -, -⟩
    · exact h.live_bindings b hb
    · exact hown ▸ h.live_work _ hhead o rfl
  case key_slot =>
    simp only [hbinds.slots, hbinds.slot]
    exact h.key_slot
  case key_active =>
    simp only [hbinds.slots, hbinds.state]
    exact h.key_active
  case key_unique =>
    simp only [hbinds.slots, hbinds.id]
    exact h.key_unique
  case ordered =>
    simp only [hbinds.id]
    exact hord.2
  case bind_service =>
    intro b hb x hx
    rw [hbinds.slot]
    exact h.bind_service b (htail b hb) x hx
  case bind_first =>
    intro b hb x hx c hc
    rw [hbinds.id, hbinds.id]
    rcases hbinds.new c hc with hc | ⟨hown, -, -⟩
    · exact h.bind_first b (htail b hb) x hx c hc
    · rw [hown]
      exact hord.1 b hb o rfl x hx
  case unbind_all =>
    intro x hx
    have hcmd := h.unbind_all x (htail _ hx)
    constructor
    · intro b hb hsame
      rw [hbinds.id, hbinds.id] at hsame
      rcases hbinds.new b hb with hold | ⟨hown, -, hconn⟩
      · -- the object that has just bound had no binding before
        have hxo : x ≠ o := by
          rintro rfl
          exact hnone b hold hsame
        rw [hbinds.heap x hxo]
        exact hcmd.1 b hold hsame
      · rw [hown] at hsame
        rw [← hcmd.2 _ hhead o rfl hsame]
        exact hconn
    · intro b hb y hy hsame
      rw [hbinds.id, hbinds.id] at hsame
      exact hcmd.2 b (htail b hb) y hy hsame
  case service =>
    intro b hb
    rcases hbinds.new b hb with hb | ⟨-, hbslot, -⟩
    · exact h.service b hb
    · exact hbslot ▸ hservice
  case single =>
    intro i svc
    simp only [hbinds.id]
    rw [hbinds.count]
    by_cases hi : s.idOf o = i
    · have hzero : s.bindings.countP (fun b => s.idOf b.owner = i ∧ b.svc = svc) = 0 := by
        rw [List.countP_eq_zero]
        intro b hb
        simp [← hi, hnone b hb]
      rw [hzero, if_pos hi]
    · rw [if_neg hi]
      exact h.single i svc
  case safe =>
    have hsafe := h.safe
    rw [hbinds.ops] at hsafe
    exact hsafe.tail.mono hbinds.held
  case booked =>
    intro i k hl
    simp only [hbinds.slots, hbinds.id]
    exact h.booked i k (hbinds.leased hl)
  case stopping =>
    intro x k hx hst l hl
    rw [hbinds.slots] at hx
    rw [hbinds.state] at hst
    rw [hbinds.id] at hl
    exact h.stopping x k hx hst l (hbinds.leased hl)

/-- The bindings of an unbind block's object may end, and then its id has nothing left.
SOURCE: KlipperInstance.kt:140-153 -/
theorem SlotInv.popUnbind (h : SlotInv s) {o : Oid} {q : List Block}
    (hq : s.queue = .unbind o :: q) {t : Registry} (ht : t = { s with
      queue := q
      bindings := s.bindings.filter fun b => ¬s.Holds o b.conn }) :
    SlotInv t ∧ (∀ k, ¬t.Leased (s.idOf o) k) ∧ ∀ b ∈ t.bindings, s.idOf b.owner ≠ s.idOf o := by
  have hwork : s.work = .unbind o :: t.work := by
    rw [work_pop hq rfl, ht]
    rfl
  have hhead : .unbind o ∈ s.work := hwork ▸ List.mem_cons_self
  have htail : ∀ b ∈ t.work, b ∈ s.work := fun b hb => hwork ▸ List.mem_cons_of_mem _ hb
  have hheap : t.heap = s.heap := by rw [ht]
  have hid : ∀ x, t.idOf x = s.idOf x := fun x => by rw [idOf, hheap, idOf]
  have hslots : t.slots = s.slots := by rw [ht]
  have hcreated : t.created = s.created := by rw [ht]
  have hcmd := h.unbind_all o hhead
  have hbind : ∀ b ∈ t.bindings, b ∈ s.bindings ∧ s.idOf b.owner ≠ s.idOf o := by
    intro b hb
    rw [ht] at hb
    obtain ⟨hmem, hno⟩ := List.mem_filter.mp hb
    exact ⟨hmem, fun hsame => of_decide_eq_true hno ⟨_, hcmd.1 b hmem hsame⟩⟩
  have hops : s.ops = .release (s.idOf o) :: t.ops := by
    have hlease : t.leaseOp = s.leaseOp := by
      funext b
      cases b <;> simp [leaseOp, hid, hheap]
    unfold ops
    rw [hwork, hlease]
    rfl
  have hheld : t.held ⊆ (Op.release (s.idOf o)).apply s.held := by
    rintro p ⟨b, hb, rfl⟩
    rw [hid]
    exact mem_apply_release.mpr ⟨⟨b, (hbind b hb).1, rfl⟩, (hbind b hb).2⟩
  have hleased : ∀ i k, t.Leased i k → s.Leased i k := by
    intro i k hl
    unfold Leased
    rw [hops]
    exact after_mono t.ops hheld hl
  have hord := h.ordered
  rw [hwork, List.pairwise_cons] at hord
  have hst : ∀ x, t.stateOf x = s.stateOf x := fun x => by rw [stateOf, hheap, stateOf]
  refine ⟨?_, fun k hl => h.not_leased_of_unbind hhead k (hleased _ k hl),
    fun b hb => (hbind b hb).2⟩
  constructor
  case live_key =>
    rw [hslots, hcreated]
    exact h.live_key
  case live_work =>
    rw [hcreated]
    exact fun b hb => h.live_work b (htail b hb)
  case live_bindings =>
    rw [hcreated]
    exact fun b hb => h.live_bindings b (hbind b hb).1
  case key_slot =>
    rw [hslots, hheap]
    exact h.key_slot
  case key_active =>
    simp only [hslots, hst]
    exact h.key_active
  case key_unique =>
    simp only [hslots, hid]
    exact h.key_unique
  case ordered =>
    simp only [hid]
    exact hord.2
  case bind_service =>
    rw [hheap]
    exact fun b hb => h.bind_service b (htail b hb)
  case bind_first =>
    simp only [hid]
    exact fun b hb x hx c hc => h.bind_first b (htail b hb) x hx c (hbind c hc).1
  case unbind_all =>
    intro x hx
    have hcmdx := h.unbind_all x (htail _ hx)
    constructor
    · intro b hb hsame
      rw [hid, hid] at hsame
      rw [hheap]
      exact hcmdx.1 b (hbind b hb).1 hsame
    · intro b hb y hy hsame
      rw [hid, hid] at hsame
      exact hcmdx.2 b (htail b hb) y hy hsame
  case service => exact fun b hb => h.service b (hbind b hb).1
  case single =>
    intro i svc
    simp only [hid]
    refine le_trans ?_ (h.single i svc)
    rw [ht]
    exact List.Sublist.countP_le List.filter_sublist
  case safe =>
    have hsafe := h.safe
    rw [hops] at hsafe
    exact hsafe.tail.mono hheld
  case booked =>
    intro i k hl
    rw [hslots]
    simp only [hid]
    exact h.booked i k (hleased i k hl)
  case stopping =>
    intro x k hx hstx l hl
    rw [hslots] at hx
    rw [hst] at hstx
    rw [hid] at hl
    exact h.stopping x k hx hstx l (hleased _ l hl)

/-- The only entry of an id may pass from an object to one that has taken over its fields.
SOURCE: KlipperInstance.kt:255-266 -/
theorem SlotInv.rekey (h : SlotInv s) {inst was : Oid} (hinst : inst < s.created)
    (hid : s.idOf inst = s.idOf was) (hslot : (s.heap inst).slot = (s.heap was).slot)
    (hst : s.stateOf inst = s.stateOf was) (hactive : s.stateOf was ≠ .idle)
    (honly : ∀ y k, s.slots.lookup y = some k → s.idOf y = s.idOf was → y = was)
    {m : AList fun _ : Oid => Int}
    (hm : ∀ x, m.lookup x = if x = inst then some (s.heap was).slot
      else if x = was then none else s.slots.lookup x) :
    SlotInv { s with slots := m } := by
  have hkey : ∀ x k, m.lookup x = some k → (x = inst ∧ k = (s.heap was).slot) ∨
      (s.slots.lookup x = some k ∧ s.idOf x ≠ s.idOf was) := by
    intro x k hx
    rw [hm] at hx
    split at hx
    · next he => exact .inl ⟨he, (Option.some.inj hx).symm⟩
    · split at hx
      · cases hx
      · next hne => exact .inr ⟨hx, fun hsame => hne (honly x k hx hsame)⟩
  refine { h with
    live_key := ?_, key_slot := ?_, key_active := ?_, key_unique := ?_, booked := ?_
    stopping := ?_ }
  · intro x k hx
    rcases hkey x k hx with ⟨rfl, -⟩ | ⟨hx, -⟩
    · exact hinst
    · exact h.live_key x k hx
  · intro x k hx
    rcases hkey x k hx with ⟨rfl, rfl⟩ | ⟨hx, -⟩
    · exact hslot
    · exact h.key_slot x k hx
  · intro x k hx
    rcases hkey x k hx with ⟨rfl, -⟩ | ⟨hx, -⟩
    · exact hst.symm ▸ hactive
    · exact h.key_active x k hx
  · intro x y k k' hx hy hxy
    rcases hkey x k hx with ⟨rfl, -⟩ | ⟨hx, hnx⟩ <;> rcases hkey y k' hy with ⟨rfl, -⟩ | ⟨hy, hny⟩
    · rfl
    · exact absurd (hxy.symm.trans hid) hny
    · exact absurd (hxy.trans hid) hnx
    · exact h.key_unique x y k k' hx hy hxy
  · intro i k hl
    obtain ⟨x, hxi, hx⟩ := h.booked i k hl
    by_cases hxw : x = was
    · subst hxw
      refine ⟨inst, hid.trans hxi, (hm inst).trans ?_⟩
      rw [if_pos rfl, h.key_slot x k hx]
    · refine ⟨x, hxi, (hm x).trans ?_⟩
      by_cases hxinst : x = inst
      · subst hxinst
        exact absurd (honly x k hx hid) hxw
      · rw [if_neg hxinst, if_neg hxw]
        exact hx
  · intro x k hx hstx l hl
    rcases hkey x k hx with ⟨rfl, -⟩ | ⟨hx, -⟩
    · -- a lease would be booked under the old object, which is stopping too
      have hl' : s.Leased (s.idOf was) l := hid ▸ hl
      obtain ⟨y, hy, hyl⟩ := h.booked _ _ hl'
      have hyw := honly y l hyl hy
      subst hyw
      exact h.stopping y l hyl (hst.symm.trans hstx) l hl'
    · exact h.stopping x k hx hstx l hl

end Registry

end Cream.Model
