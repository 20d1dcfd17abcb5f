import Cream.Analysis.SlotOperations

/-!
# A reload keeps the slot ledger

`onInstancesLoadedFromDB` handles one id at a time: it passes the entries of the old
objects to the new ones, drops the ids that are gone, and starts what has autostart set.
`Apart i s t` says that a step was about the id `i` only, so that what the later rounds
have to find (`Adoptable`, `Commands`, `IdFree`) survives the earlier ones.
-/

set_option autoImplicit false

namespace Cream.Model

namespace Registry

variable {s t u : Registry}

/-! ## Steps about one id -/

/-- Nothing of the ids outside `I` has changed. -/
structure Apart (I : Set String) (s t : Registry) : Prop where
  created : s.created ≤ t.created
  id : ∀ x < s.created, t.idOf x = s.idOf x
  heap : ∀ x < s.created, s.idOf x ∉ I → t.heap x = s.heap x
  lookup : ∀ x, t.idOf x ∉ I → t.slots.lookup x = s.slots.lookup x
  work : ∀ b ∈ t.work, b ∈ s.work ∨ ∃ o ∈ b.object?, t.idOf o ∈ I
  kept : ∀ b ∈ s.work, b ∈ t.work
  bindings : t.bindings = s.bindings
  nextConn : t.nextConn = s.nextConn

/-- Without a step nothing has changed. -/
theorem Apart.refl (I : Set String) : Apart I s s :=
  ⟨le_rfl, fun _ _ => rfl, fun _ _ _ => rfl, fun _ _ => rfl, fun _ hb => .inl hb,
    fun _ hb => hb, rfl, rfl⟩

/-- Two steps about `I` and `J` are a step about both. -/
theorem Apart.trans {I J : Set String} (ha : Apart I s t) (hb : Apart J t u) (hs : SlotInv s)
    (ht : SlotInv t) : Apart (I ∪ J) s u where
  created := ha.created.trans hb.created
  id x hx := (hb.id x (hx.trans_le ha.created)).trans (ha.id x hx)
  heap x hx hxi := by
    have hid := ha.id x hx
    have hnI : s.idOf x ∉ I := fun h => hxi (.inl h)
    have hnJ : t.idOf x ∉ J := fun h => hxi (.inr (hid ▸ h))
    exact (hb.heap x (hx.trans_le ha.created) hnJ).trans (ha.heap x hx hnI)
  lookup x hx := by
    have hnJ : u.idOf x ∉ J := fun h => hx (.inr h)
    rw [hb.lookup x hnJ]
    by_cases hlt : x < t.created
    · exact ha.lookup x fun h => hx (.inl ((hb.id x hlt).symm ▸ h))
    · -- what does not exist yet is no key
      have htn : t.slots.lookup x = none := by
        cases hk : t.slots.lookup x with
        | none => rfl
        | some k => exact absurd (ht.live_key x k hk) hlt
      have hsn : s.slots.lookup x = none := by
        cases hk : s.slots.lookup x with
        | none => rfl
        | some k => exact absurd ((hs.live_key x k hk).trans_le ha.created) hlt
      rw [htn, hsn]
  work b hub := by
    rcases hb.work b hub with hb' | ⟨o, ho, hoJ⟩
    · rcases ha.work b hb' with hb'' | ⟨o, ho, hoI⟩
      · exact .inl hb''
      · exact .inr ⟨o, ho, .inl ((hb.id o (ht.live_work b hb' o ho)).symm ▸ hoI)⟩
    · exact .inr ⟨o, ho, .inr hoJ⟩
  kept b hsb := hb.kept b (ha.kept b hsb)
  bindings := hb.bindings.trans ha.bindings
  nextConn := hb.nextConn.trans ha.nextConn

/-- A free id stays free. -/
theorem IdFree.apart {I : Set String} {j : String} (hfree : s.IdFree j) (h : SlotInv s)
    (ha : Apart I s t) (hne : j ∉ I) : t.IdFree j := by
  refine ⟨fun y hy hid => ?_, fun b hb hid => ?_, fun b hb o ho hid => ?_⟩
  · obtain ⟨k, hk⟩ := (mem_keys_iff_lookup y).mp hy
    rw [ha.lookup y (hid ▸ hne)] at hk
    rw [ha.id y (h.live_key y k hk)] at hid
    exact hfree.1 y ((mem_keys_iff_lookup y).mpr ⟨k, hk⟩) hid
  · rw [ha.bindings] at hb
    rw [ha.id _ (h.live_bindings b hb)] at hid
    exact hfree.2.1 b hb hid
  · rcases ha.work b hb with hb | ⟨x, hx, hxi⟩
    · rw [ha.id o (h.live_work b hb o ho)] at hid
      exact hfree.2.2 b hb o ho hid
    · cases Option.mem_unique ho hx
      exact hne (hid ▸ hxi)

/-- An object of another id commands what it commanded. -/
theorem Commands.apart {I : Set String} {o : Oid} (hcmd : s.Commands o) (h : SlotInv s)
    (ha : Apart I s t) (ho : o < s.created) (hne : s.idOf o ∉ I) : t.Commands o := by
  have hid := ha.id o ho
  refine ⟨fun b hb hsame => ?_, fun b hb y hy hsame => ?_⟩
  · rw [ha.bindings] at hb
    rw [hid, ha.id _ (h.live_bindings b hb)] at hsame
    rw [ha.heap o ho hne]
    exact hcmd.1 b hb hsame
  · rcases ha.work b hb with hb | ⟨x, hx, hxi⟩
    · rw [hid, ha.id y (h.live_work b hb y (object?_of_bound? hy))] at hsame
      exact hcmd.2 b hb y hy hsame
    · cases Option.mem_unique (object?_of_bound? hy) hx
      exact absurd (hid ▸ hsame ▸ hxi) hne

/-! ## The adoption loop -/

/-- Every connection an object of `t` holds was held in `s` under the same id. -/
def LinksFrom (s t : Registry) : Prop :=
  ∀ x < t.created, ∀ svc c, ((t.heap x).link svc).connection = some c →
    ∃ y < s.created, s.idOf y = t.idOf x ∧ ((s.heap y).link svc).connection = some c

/-- Without a step every connection is held where it was. -/
theorem LinksFrom.refl : LinksFrom s s :=
  fun x hx _ _ hc => ⟨x, hx, rfl, hc⟩

/-- Two steps that pass connections on within an id do together. -/
theorem LinksFrom.trans (h : LinksFrom s t) (h' : LinksFrom t u) : LinksFrom s u := by
  intro x hx svc c hc
  obtain ⟨y, hy, hid, hcy⟩ := h' x hx svc c hc
  obtain ⟨z, hz, hid', hcz⟩ := h y hy svc c hcy
  exact ⟨z, hz, hid'.trans hid, hcz⟩

/-- Looking an object up passes nothing on. -/
theorem LinksFrom.looked {i : String} {r : Option Oid} (hl : Looked s i t r) :
    LinksFrom s t := by
  intro x hx svc c hc
  by_cases hlt : x < s.created
  · refine ⟨x, hlt, ?_, ?_⟩
    · rw [idOf, idOf, hl.heap x hlt]
    · rw [← hl.heap x hlt]
      exact hc
  · obtain ⟨row, hrow⟩ := hl.fresh x (Nat.not_lt.mp hlt) hx
    rw [hrow] at hc
    cases hc

/-- No entry of this id stands under another object than the registered one, unless that
one is idle. -/
def Adoptable (s : Registry) (i : String) : Prop :=
  ∀ w ∈ s.registered i, s.stateOf w ≠ .idle → ∀ y ∈ s.slots.keys, s.idOf y = i → y = w

/-- Nothing refers to the object yet. -/
structure Fresh (s : Registry) (o : Oid) : Prop where
  live : o < s.created
  new : ∃ row, s.heap o = { toRow := row }
  lookup : s.slots.lookup o = none
  work : ∀ b ∈ s.work, o ∉ b.object?
  instances : o ∉ s.instances
  registered : ∀ i, s.registered i ≠ some o

/-- The new object keeps its row, and has the state and the links of the object registered
under its id, or, when there is none, those of an object just loaded. -/
def Copied (s : Registry) (inst : Oid) (t : Registry) : Prop :=
  (t.heap inst).toRow = (s.heap inst).toRow ∧
  ((∃ w, s.registered (s.idOf inst) = some w ∧ t.stateOf inst = s.stateOf w ∧
    (t.heap inst).link = (s.heap w).link) ∨
  (s.registered (s.idOf inst) = none ∧ t.stateOf inst = .idle ∧
    (t.heap inst).link = fun _ => {}))

/-- What one round of the adoption loop does to the other ids. -/
structure AdoptedOne (s : Registry) (inst : Oid) (t : Registry) : Prop where
  inv : SlotInv t
  indexed : Indexed t
  apart : Apart {s.idOf inst} s t
  work : t.work = s.work
  registered : ∀ j, t.registered j = s.registered j ∨
    (s.registered j = none ∧ ∃ w, t.registered j = some w ∧ s.created ≤ w ∧ w < t.created)
  newRow : ∀ x, s.created ≤ x → x < t.created → ∃ row, t.heap x = { toRow := row }
  instances : ∀ x ∈ t.instances, x ∈ s.instances ∨ s.created ≤ x
  free : t.stateOf inst = .idle → s.IdFree (s.idOf inst) → t.IdFree (s.idOf inst)
  links : LinksFrom s t
  copied : Copied s inst t
  newKey : ∀ x k, t.slots.lookup x = some k → t.idOf x = s.idOf inst →
    (∃ y l, s.slots.lookup y = some l ∧ s.idOf y = s.idOf inst) ∨
      ∃ w, s.registered (s.idOf inst) = some w ∧ s.stateOf w ≠ .idle

/-- The ledger does not see it. -/
theorem Quiet.looked {i : String} {r : Option Oid} (h : SlotInv s) (hl : Looked s i t r) :
    Quiet s t := by
  have hid : ∀ x < s.created, t.idOf x = s.idOf x := fun x hx => by
    rw [idOf, hl.heap x hx, idOf]
  have hslots : t.slots = s.slots := by rw [hl.eq]
  have hwork : t.work = s.work := by rw [hl.eq]; rfl
  have hbind : t.bindings = s.bindings := by rw [hl.eq]
  have hst : ∀ x < s.created, t.stateOf x = s.stateOf x := fun x hx => by
    rw [stateOf, hl.heap x hx, stateOf]
  constructor
  case created => exact hl.created
  case id => exact hid
  case slot_key => exact fun x k hx => by rw [hl.heap x (h.live_key x k hx)]
  case slot_bind =>
    exact fun b hb o ho => by rw [hl.heap o (h.live_work b hb o (object?_of_bound? ho))]
  case connection =>
    exact fun x hx b _ _ => by rw [hl.heap x (h.live_work _ hx x rfl)]
  case active =>
    intro x k hx
    rw [hst x (h.live_key x k hx)]
    exact h.key_active x k hx
  case stopping =>
    intro x k hx hstop
    rw [hst x (h.live_key x k hx)] at hstop
    exact .inl hstop
  case lookup => exact fun x => by rw [hslots]
  case work => exact hwork
  case bindings => rw [hbind]

/-- Nor is it about any id. -/
theorem Apart.looked {I : Set String} {i : String} {r : Option Oid} (hl : Looked s i t r) :
    Apart I s t where
  created := hl.created
  id x hx := by rw [idOf, hl.heap x hx, idOf]
  heap x hx _ := hl.heap x hx
  lookup x _ := by rw [hl.eq]
  work b hb := by
    rw [hl.eq] at hb
    exact .inl hb
  kept b hb := by
    rw [hl.eq]
    exact hb
  bindings := by rw [hl.eq]
  nextConn := by rw [hl.eq]

/-- A free id stays free when entries and blocks only go. -/
theorem IdFree.mono {i : String} (hfree : s.IdFree i) (h : SlotInv s)
    (hid : ∀ x < s.created, t.idOf x = s.idOf x)
    (hkeys : ∀ y k, t.slots.lookup y = some k → s.slots.lookup y = some k)
    (hbind : t.bindings = s.bindings) (hwork : t.work = s.work) : t.IdFree i := by
  refine ⟨fun y hy he => ?_, fun b hb he => ?_, fun b hb o ho he => ?_⟩
  · obtain ⟨k, hk⟩ := (mem_keys_iff_lookup y).mp hy
    have hk := hkeys y k hk
    rw [hid y (h.live_key y k hk)] at he
    exact hfree.1 y ((mem_keys_iff_lookup y).mpr ⟨k, hk⟩) he
  · rw [hbind] at hb
    rw [hid _ (h.live_bindings b hb)] at he
    exact hfree.2.1 b hb he
  · rw [hwork] at hb
    rw [hid o (h.live_work b hb o ho)] at he
    exact hfree.2.2 b hb o ho he

/-- It queues nothing. -/
theorem Looked.work {i : String} {r : Option Oid} (hl : Looked s i t r) : t.work = s.work := by
  rw [hl.eq]
  rfl

/-- When there is no old object, a round only asks `getInstance`. -/
theorem AdoptedOne.of_none {inst : Oid} (h : SlotInv s) (hi : Indexed s) (hf : Fresh s inst)
    (hl : Looked s (s.idOf inst) t none) : AdoptedOne s inst t where
  inv := h.quiet (Quiet.looked h hl)
  indexed := hl.indexed hi
  apart := .looked hl
  work := hl.work
  registered := hl.registered
  newRow := hl.fresh
  instances x hx := (hl.instances x hx).imp_right And.left
  free _ hfree := hfree.mono h (fun x hx => by rw [idOf, hl.heap x hx, idOf])
    (fun y k hk => by rwa [hl.eq] at hk) (by rw [hl.eq]) hl.work
  links := .looked hl
  copied := by
    obtain ⟨row, hrow⟩ := hf.new
    rw [← hl.heap inst hf.live] at hrow
    refine ⟨by rw [hl.heap inst hf.live], ?_⟩
    rcases hl.result with hres | ⟨-, x, hx, -⟩
    · exact .inr ⟨hres.symm, by rw [stateOf, hrow], by rw [hrow]⟩
    · cases hx
  newKey x k hx hid := by
    rw [hl.eq] at hx
    have hx : s.slots.lookup x = some k := hx
    have hlt := h.live_key x k hx
    rw [idOf, hl.heap x hlt] at hid
    exact .inl ⟨x, k, hx, hid⟩

/-- The invariant holds of a new object with the old one's state, links and slot, while the old
object still has the entry. -/
theorem SlotInv.copy {inst : Oid} (h : SlotInv s) (was : Oid) (hnokey : s.slots.lookup inst = none)
    (hwork : ∀ b ∈ s.work, inst ∉ b.object?) :
    SlotInv (s.modify inst fun i => { i with
      state := s.stateOf was, link := (s.heap was).link, slot := (s.heap was).slot }) := by
  refine h.quiet (Quiet.modify h rfl (.inr ⟨hnokey, fun b hb hbound => ?_⟩)
    (.inr fun hunbind => ?_) (.inr (.inl hnokey)))
  · exact hwork b hb (object?_of_bound? hbound)
  · exact hwork _ hunbind rfl

/-- The entry passes from the old object to the new one: the invariant holds when no other object
of the id has an entry, or the old object is idle. -/
theorem SlotInv.adopt {inst was : Oid} (h : SlotInv s) (hinst : inst < s.created)
    (hnokey : s.slots.lookup inst = none) (hwork : ∀ b ∈ s.work, inst ∉ b.object?)
    (hid : s.idOf inst = s.idOf was) (hne : was ≠ inst)
    (honly : s.stateOf was ≠ .idle → ∀ y ∈ s.slots.keys, s.idOf y = s.idOf was → y = was) :
    SlotInv (s.adopt inst was) := by
  have hcopy := h.copy was hnokey hwork
  set v := s.modify inst fun i => { i with
    state := s.stateOf was, link := (s.heap was).link, slot := (s.heap was).slot }
  have hvne : ∀ x, x ≠ inst → v.heap x = s.heap x := fun x hx => Function.update_of_ne hx _ _
  have hvself : v.heap inst = { s.heap inst with
      state := s.stateOf was, link := (s.heap was).link, slot := (s.heap was).slot } :=
    Function.update_self _ _ _
  have hvid : ∀ x, v.idOf x = s.idOf x := fun x => idOf_modify s inst x _ fun _ => rfl
  have hvwas : v.stateOf was = s.stateOf was := by rw [stateOf, hvne was hne, stateOf]
  have heq : s.adopt inst was = { v with slots := (s.adopt inst was).slots } := adopt_eq s inst was
  rw [heq]
  by_cases hidle : s.stateOf was = .idle
  · have hwasnone : s.slots.lookup was = none := by
      cases hk : s.slots.lookup was with
      | none => rfl
      | some k => exact absurd hidle (h.key_active was k hk)
    exact hcopy.quiet (Quiet.of_eq hcopy rfl rfl (lookup_adopt_idle s hidle hwasnone) rfl rfl)
  · refine hcopy.rekey hinst (?_ : v.idOf inst = v.idOf was) ?_ ?_ ?_ ?_ ?_
    · rw [hvid, hvid, hid]
    · rw [hvself, hvne was hne]
    · rw [hvwas, stateOf, hvself]
    · rw [hvwas]
      exact hidle
    · intro y k hy hsame
      rw [hvid, hvid] at hsame
      exact honly hidle y ((mem_keys_iff_lookup y).mpr ⟨k, hy⟩) hsame
    · intro x
      rw [lookup_adopt, hvne was hne]
      simp only [ne_eq, hidle, not_false_eq_true, and_true]
      rfl

/-- The adoption of one object is about its id. -/
theorem Apart.adopt {inst was : Oid} (hid : s.idOf was = s.idOf inst) :
    Apart {s.idOf inst} s (s.adopt inst was) where
  created := (s.adopt_created inst was).ge
  id x _ := s.idOf_adopt inst was x
  heap x _ hx := s.heap_adopt_of_ne was fun heq => hx (congrArg s.idOf heq)
  lookup x hx := by
    rw [idOf_adopt] at hx
    rw [lookup_adopt, if_neg fun h => hx (congrArg s.idOf h.1),
      if_neg fun h => hx ((congrArg s.idOf h).trans hid)]
  work b hb := by
    rw [Registry.work, adopt_queue] at hb
    exact .inl hb
  kept b hb := by
    rw [Registry.work, adopt_queue]
    exact hb
  bindings := s.adopt_bindings inst was
  nextConn := s.adopt_nextConn inst was

/-- The links of the new object are those of the old one. -/
theorem LinksFrom.adopt {inst was : Oid} (hlt : was < s.created)
    (hid : s.idOf was = s.idOf inst) : LinksFrom s (s.adopt inst was) := by
  intro x hx svc c hc
  rw [adopt_created] at hx
  rw [idOf_adopt]
  by_cases hxi : x = inst
  · subst hxi
    rw [heap_adopt_self] at hc
    exact ⟨was, hlt, hid, hc⟩
  · rw [heap_adopt_of_ne s was hxi] at hc
    exact ⟨x, hx, rfl, hc⟩

/-- The new object copies the registered one, or one that has just been read. -/
theorem Copied.adopt {inst was : Oid} (hi : Indexed s) (hf : Fresh s inst)
    (hl : Looked s (s.idOf inst) u (some was)) : Copied s inst (u.adopt inst was) := by
  obtain ⟨-, -, hfound⟩ := hl.found hi
  have hlink : ((u.adopt inst was).heap inst).link = (u.heap was).link := by
    rw [heap_adopt_self]
  refine ⟨by rw [heap_adopt_self, hl.heap inst hf.live], ?_⟩
  rw [stateOf_adopt_self, hlink]
  rcases hfound with ⟨hreg, -, hheap⟩ | ⟨hnone, -, row, hrow⟩
  · exact .inl ⟨was, hreg, by rw [stateOf, hheap, stateOf], by rw [hheap]⟩
  · exact .inr ⟨hnone, by rw [stateOf, hrow], by rw [hrow]⟩

/-- A round with an old object: the new object is a copy of it, and has its entry.
SOURCE: KlipperInstance.kt:252-268 -/
theorem AdoptedOne.of_some {inst was : Oid} (h : SlotInv s) (hi : Indexed s) (hf : Fresh s inst)
    (ha : Adoptable s (s.idOf inst)) (hl : Looked s (s.idOf inst) u (some was)) :
    AdoptedOne s inst (u.adopt inst was) := by
  have hu := h.quiet (Quiet.looked h hl)
  have hid : ∀ x < s.created, u.idOf x = s.idOf x := (Quiet.looked h hl).id
  have hslots : u.slots = s.slots := by rw [hl.eq]
  have hinst : u.idOf inst = s.idOf inst := hid inst hf.live
  have hwork : (u.adopt inst was).work = s.work := by
    rw [Registry.work, adopt_queue]
    exact hl.work
  obtain ⟨hwid, hwlt, hfound⟩ := hl.found hi
  have hne : was ≠ inst := by
    rintro rfl
    rcases hfound with ⟨hreg, -⟩ | ⟨-, hge, -⟩
    · exact hf.registered _ hreg
    · exact absurd hf.live (Nat.not_lt.mpr hge)
  -- an old object that is not idle is the registered one
  have hregistered : u.stateOf was ≠ .idle →
      s.registered (s.idOf inst) = some was ∧ s.stateOf was ≠ .idle := by
    intro hst
    rcases hfound with ⟨hreg, -, hheap⟩ | ⟨-, -, row, hrow⟩
    · rw [stateOf, hheap] at hst
      exact ⟨hreg, hst⟩
    · rw [stateOf, hrow] at hst
      exact absurd rfl hst
  have honly : u.stateOf was ≠ .idle → ∀ y ∈ u.slots.keys, u.idOf y = u.idOf was → y = was := by
    intro hst y hy hsame
    obtain ⟨hreg, hsst⟩ := hregistered hst
    rw [hslots] at hy
    obtain ⟨k, hk⟩ := (mem_keys_iff_lookup y).mp hy
    rw [hwid, hid y (h.live_key y k hk)] at hsame
    exact ha was hreg hsst y hy hsame
  constructor
  case inv =>
    refine hu.adopt (hf.live.trans_le hl.created) (by rw [hslots]; exact hf.lookup) ?_
      (hinst.trans hwid.symm) hne honly
    rw [hl.work]
    exact hf.work
  case indexed =>
    exact (hl.indexed hi).congr (u.adopt_created inst was).ge (fun x _ => u.idOf_adopt inst was x)
      (u.adopt_instances inst was) (u.adopt_instanceMap inst was)
  case apart =>
    have hadopt : Apart {s.idOf inst} u (u.adopt inst was) :=
      hinst ▸ Apart.adopt (hwid.trans hinst.symm)
    have hlooked : Apart {s.idOf inst} s u := .looked hl
    have htrans := hlooked.trans hadopt h hu
    rwa [Set.union_self] at htrans
  case work => exact hwork
  case registered =>
    intro j
    rw [registered_adopt, adopt_created]
    exact hl.registered j
  case newRow =>
    intro x hx hx'
    rw [adopt_created] at hx'
    have hxne : x ≠ inst := by
      rintro rfl
      exact absurd hf.live (Nat.not_lt.mpr hx)
    rw [heap_adopt_of_ne u was hxne]
    exact hl.fresh x hx hx'
  case instances =>
    intro x hx
    rw [adopt_instances] at hx
    exact (hl.instances x hx).imp_right And.left
  case free =>
    intro hidle hfree
    rw [stateOf_adopt_self] at hidle
    have hnone : u.slots.lookup was = none := by
      cases hk : u.slots.lookup was with
      | none => rfl
      | some k => exact absurd hidle (hu.key_active was k hk)
    refine hfree.mono h (fun x hx => (u.idOf_adopt inst was x).trans (hid x hx)) (fun y k hk => ?_)
      ((u.adopt_bindings inst was).trans (by rw [hl.eq])) hwork
    rw [lookup_adopt_idle u hidle hnone, hslots] at hk
    exact hk
  case links => exact (LinksFrom.looked hl).trans (.adopt hwlt (hwid.trans hinst.symm))
  case copied => exact .adopt hi hf hl
  case newKey =>
    intro x k hx hxi
    rw [lookup_adopt] at hx
    split at hx
    · next hins => exact .inr ⟨was, hregistered hins.2⟩
    · split at hx
      · cases hx
      · rw [hslots] at hx
        rw [idOf_adopt, hid x (h.live_key x k hx)] at hxi
        exact .inl ⟨x, k, hx, hxi⟩

/-- **One round of the adoption loop.**
SOURCE: KlipperInstance.kt:252-268 -/
theorem adoptRow_one (h : SlotInv s) (hi : Indexed s) {inst : Oid} (hf : Fresh s inst)
    (ha : Adoptable s (s.idOf inst)) (db : Option (List Row)) :
    AdoptedOne s inst (adoptRow db s inst) := by
  obtain ⟨u, r, hl, hround⟩ := adoptRow_spec inst hi db
  rw [hround]
  cases r with
  | none => exact .of_none h hi hf hl
  | some was => exact .of_some h hi hf ha hl

/-- What autostart has to find: an idle new object's id is free. -/
def Startable (s : Registry) (inst : Oid) : Prop :=
  (s.heap inst).autostart → s.stateOf inst = .idle → s.IdFree (s.idOf inst)

/-- What the adoption of an object has to find, and autostart after it. -/
structure Awaiting (s : Registry) (inst : Oid) : Prop where
  fresh : Fresh s inst
  adoptable : Adoptable s (s.idOf inst)
  startable : (s.heap inst).autostart →
    (∀ w ∈ s.registered (s.idOf inst), s.stateOf w = .idle) → s.IdFree (s.idOf inst)

/-- What may be started still may after a step about other ids. -/
theorem Startable.apart {I : Set String} {inst : Oid} (hst : s.Startable inst) (h : SlotInv s)
    (ha : Apart I s t) (hlt : inst < s.created) (hne : s.idOf inst ∉ I) : t.Startable inst := by
  have hheap := ha.heap inst hlt hne
  intro hauto hidle
  rw [hheap] at hauto
  rw [stateOf, hheap] at hidle
  rw [ha.id inst hlt]
  exact (hst hauto hidle).apart h ha hne

/-- An object waiting for its round is not touched by the round of another id. -/
theorem Awaiting.next {inst other : Oid} (hw : s.Awaiting other) (h : SlotInv s)
    (hi : Indexed s) (ha : AdoptedOne s inst t) (hne : s.idOf other ≠ s.idOf inst) :
    t.Awaiting other := by
  have hlt := hw.fresh.live
  have hheap := ha.apart.heap other hlt hne
  have hid := ha.apart.id other hlt
  have hregistered : ∀ w ∈ t.registered (s.idOf other), t.stateOf w ≠ .idle →
      s.registered (s.idOf other) = some w ∧ w < s.created ∧ t.stateOf w = s.stateOf w := by
    intro w hw' hactive
    rcases ha.registered (s.idOf other) with hsame | ⟨-, x, hx, hge, hlt'⟩
    · rw [hsame] at hw'
      obtain ⟨hwlt, hwid⟩ := hi.registered hw'
      have hwheap := ha.apart.heap w hwlt (hwid ▸ hne)
      exact ⟨hw', hwlt, by rw [stateOf, hwheap, stateOf]⟩
    · rw [hx, Option.mem_some] at hw'
      subst hw'
      obtain ⟨row, hrow⟩ := ha.newRow x hge hlt'
      exact absurd (by rw [stateOf, hrow]) hactive
  constructor
  case fresh =>
    refine ⟨hlt.trans_le ha.apart.created, ?_, ?_, ?_, ?_, ?_⟩
    · rw [hheap]
      exact hw.fresh.new
    · rw [ha.apart.lookup other (hid ▸ hne)]
      exact hw.fresh.lookup
    · rw [ha.work]
      exact hw.fresh.work
    · intro hmem
      rcases ha.instances other hmem with hmem | hge
      · exact hw.fresh.instances hmem
      · exact absurd hlt (Nat.not_lt.mpr hge)
    · intro j hj
      rcases ha.registered j with hsame | ⟨-, x, hx, hge, -⟩
      · exact hw.fresh.registered j (hsame.symm.trans hj)
      · rw [hx, Option.some.injEq] at hj
        subst hj
        exact absurd hlt (Nat.not_lt.mpr hge)
  case adoptable =>
    rw [hid]
    intro w hw' hactive y hy hsame
    obtain ⟨hreg, hwlt, hst⟩ := hregistered w hw' hactive
    obtain ⟨k, hk⟩ := (mem_keys_iff_lookup y).mp hy
    rw [ha.apart.lookup y (hsame ▸ hne)] at hk
    rw [ha.apart.id y (h.live_key y k hk)] at hsame
    rw [hst] at hactive
    exact hw.adoptable w hreg hactive y ((mem_keys_iff_lookup y).mpr ⟨k, hk⟩) hsame
  case startable =>
    rw [hheap, hid]
    intro hauto hidle
    refine (hw.startable hauto fun w hw' => ?_).apart h ha.apart hne
    rcases ha.registered (s.idOf other) with hsame | ⟨hnone, -⟩
    · obtain ⟨hwlt, hwid⟩ := hi.registered hw'
      have htw := hidle w (hsame.symm ▸ hw')
      rw [stateOf, ha.apart.heap w hwlt (hwid ▸ hne)] at htw
      exact htw
    · rw [hnone] at hw'
      cases hw'

/-- **The adoption loop.**
SOURCE: KlipperInstance.kt:252-268 -/
theorem foldl_adoptRow (db : Option (List Row)) (rest : List Oid) (h : SlotInv s)
    (hi : Indexed s) (hw : ∀ o ∈ rest, s.Awaiting o) (hnodup : (rest.map s.idOf).Nodup) :
    SlotInv (rest.foldl (adoptRow db) s) ∧
      Apart {i | i ∈ rest.map s.idOf} s (rest.foldl (adoptRow db) s) ∧
      (rest.foldl (adoptRow db) s).work = s.work ∧
      LinksFrom s (rest.foldl (adoptRow db) s) ∧
      ∀ o ∈ rest, (rest.foldl (adoptRow db) s).Startable o ∧
        Copied s o (rest.foldl (adoptRow db) s) ∧
        ∀ x k, (rest.foldl (adoptRow db) s).slots.lookup x = some k →
          (rest.foldl (adoptRow db) s).idOf x = s.idOf o →
            (∃ y l, s.slots.lookup y = some l ∧ s.idOf y = s.idOf o) ∨
              ∃ w, s.registered (s.idOf o) = some w ∧ s.stateOf w ≠ .idle := by
  induction rest generalizing s with
  | nil => exact ⟨h, .refl _, rfl, .refl, fun o ho => (List.not_mem_nil ho).elim⟩
  | cons inst rest ih =>
    rw [List.map_cons, List.nodup_cons] at hnodup
    have hone := adoptRow_one h hi (hw inst List.mem_cons_self).fresh
      (hw inst List.mem_cons_self).adoptable db
    set t := adoptRow db s inst with ht
    have hlive : ∀ o ∈ rest, o < s.created :=
      fun o ho => (hw o (List.mem_cons_of_mem _ ho)).fresh.live
    have hne : ∀ o ∈ rest, s.idOf o ≠ s.idOf inst := by
      intro o ho hsame
      exact hnodup.1 (List.mem_map.mpr ⟨o, ho, hsame⟩)
    have hmap : rest.map t.idOf = rest.map s.idOf :=
      List.map_congr_left fun o ho => hone.apart.id o (hlive o ho)
    have hwt : ∀ o ∈ rest, t.Awaiting o := fun o ho =>
      (hw o (List.mem_cons_of_mem _ ho)).next h hi hone (hne o ho)
    obtain ⟨hinv, hapart, hwork, hlinks, hstart⟩ := ih hone.inv hone.indexed hwt
      (hmap ▸ hnodup.2)
    rw [hmap] at hapart
    rw [List.foldl_cons, ← ht]
    set u := rest.foldl (adoptRow db) t
    refine ⟨hinv, ?_, hwork.trans hone.work, hone.links.trans hlinks, fun o ho => ?_⟩
    · have htrans := hone.apart.trans hapart h hone.inv
      have hset : ({s.idOf inst} ∪ {i | i ∈ rest.map s.idOf} : Set String) =
          {i | i ∈ (inst :: rest).map s.idOf} := by
        ext i
        simp
      rw [hset] at htrans
      exact htrans
    · rcases List.mem_cons.mp ho with rfl | ho
      · -- the object of this round: an idle one leaves its id free
        have hlt := (hw o List.mem_cons_self).fresh.live
        have hid := hone.apart.id o hlt
        have hstartable : t.Startable o := by
          intro hauto hidle
          have hsauto : (s.heap o).autostart = true := by
            have hrow := congrArg Row.autostart hone.copied.1
            exact hrow ▸ hauto
          rw [hid]
          refine hone.free hidle ((hw o List.mem_cons_self).startable hsauto fun w hreg => ?_)
          rcases hone.copied.2 with ⟨x, hx, hst, -⟩ | ⟨hnone, -⟩
          · cases Option.mem_unique hreg hx
            exact hst.symm.trans hidle
          · rw [hnone] at hreg
            cases hreg
        have hkept : t.idOf o ∉ {i | i ∈ rest.map s.idOf} := by
          rw [hid]
          exact hnodup.1
        have hlt' := hlt.trans_le hone.apart.created
        refine ⟨hstartable.apart hone.inv hapart hlt' hkept, ?_, fun x k hx hxi => ?_⟩
        · have hheap := hapart.heap o hlt' hkept
          unfold Copied
          rw [stateOf, hheap]
          exact hone.copied
        · have hmiss : u.idOf x ∉ {i | i ∈ rest.map s.idOf} := hxi ▸ hnodup.1
          rw [hapart.lookup x hmiss] at hx
          rw [hapart.id x (hone.inv.live_key x k hx)] at hxi
          exact hone.newKey x k hx hxi
      · obtain ⟨hstarto, hcopied, hnewKey⟩ := hstart o ho
        refine ⟨hstarto, ?_, fun x k hx hxi => ?_⟩
        swap
        · have hid := hone.apart.id o (hlive o ho)
          rcases hnewKey x k hx (hxi.trans hid.symm) with ⟨y, l, hy, hyi⟩ | ⟨w, hreg, hactive⟩
          · rw [hid] at hyi
            rw [hone.apart.lookup y fun hmem => hne o ho (hyi.symm.trans hmem)] at hy
            rw [hone.apart.id y (h.live_key y l hy)] at hyi
            exact .inl ⟨y, l, hy, hyi⟩
          · rw [hid] at hreg
            rcases hone.registered (s.idOf o) with hsame | ⟨-, x, hx, hge, hlt'⟩
            · rw [hsame] at hreg
              obtain ⟨hwlt, hwid⟩ := hi.registered hreg
              rw [stateOf, hone.apart.heap w hwlt (hwid ▸ hne o ho)] at hactive
              exact .inr ⟨w, hreg, hactive⟩
            · rw [hx, Option.some.injEq] at hreg
              subst hreg
              obtain ⟨row, hrow⟩ := hone.newRow x hge hlt'
              exact absurd (by rw [stateOf, hrow]) hactive
        rw [Copied, hone.apart.id o (hlive o ho), hone.apart.heap o (hlive o ho) (hne o ho)]
          at hcopied
        refine ⟨hcopied.1, ?_⟩
        rcases hcopied.2 with ⟨w, hreg, hst, hlink⟩ | ⟨hnone, hst, hlink⟩
        · rcases hone.registered (s.idOf o) with hsame | ⟨hsnone, x, hx, hge, hlt'⟩
          · rw [hsame] at hreg
            obtain ⟨hwlt, hwid⟩ := hi.registered hreg
            have hheap := hone.apart.heap w hwlt (hwid ▸ hne o ho)
            have hstw : t.stateOf w = s.stateOf w := by rw [stateOf, hheap, stateOf]
            exact .inl ⟨w, hreg, hst.trans hstw, hlink.trans (by rw [hheap])⟩
          · -- an object from the database, as idle as one just loaded
            rw [hx, Option.some.injEq] at hreg
            subst hreg
            obtain ⟨row, hrow⟩ := hone.newRow x hge hlt'
            exact .inr ⟨hsnone, by rw [hst, stateOf, hrow], by rw [hlink, hrow]⟩
        · rcases hone.registered (s.idOf o) with hsame | ⟨hsnone, x, hx, -⟩
          · exact .inr ⟨hsame.symm.trans hnone, hst, hlink⟩
          · rw [hx] at hnone
            cases hnone

/-! ## `stop` and `start` are about one id -/

/-- A step that creates nothing, changes no link and leaves the ids outside `I` alone. -/
structure Local (I : Set String) (s t : Registry) : Prop where
  created : t.created = s.created
  id : ∀ x, t.idOf x = s.idOf x
  heap : ∀ x, s.idOf x ∉ I → t.heap x = s.heap x
  link : ∀ x, (t.heap x).link = (s.heap x).link
  lookup : ∀ x, s.idOf x ∉ I → t.slots.lookup x = s.slots.lookup x
  work : ∀ b ∈ t.work, b ∈ s.work ∨ ∃ o ∈ b.object?, s.idOf o ∈ I
  kept : ∀ b ∈ s.work, b ∈ t.work
  bindings : t.bindings = s.bindings
  nextConn : t.nextConn = s.nextConn
  index : t.instances = s.instances ∧ t.instanceMap = s.instanceMap

/-- Without a step nothing has changed. -/
theorem Local.refl (I : Set String) : Local I s s :=
  ⟨rfl, fun _ => rfl, fun _ _ => rfl, fun _ => rfl, fun _ _ => rfl, fun _ hb => .inl hb,
    fun _ hb => hb, rfl, rfl, rfl, rfl⟩

/-- Two steps about the same ids are one. -/
theorem Local.trans {I : Set String} (h : Local I s t) (h' : Local I t u) : Local I s u where
  created := h'.created.trans h.created
  id x := (h'.id x).trans (h.id x)
  heap x hx := (h'.heap x (h.id x ▸ hx)).trans (h.heap x hx)
  link x := (h'.link x).trans (h.link x)
  lookup x hx := (h'.lookup x (h.id x ▸ hx)).trans (h.lookup x hx)
  work b hb := by
    rcases h'.work b hb with hb | ⟨o, ho, hoI⟩
    · exact h.work b hb
    · exact .inr ⟨o, ho, h.id o ▸ hoI⟩
  kept b hb := h'.kept b (h.kept b hb)
  bindings := h'.bindings.trans h.bindings
  nextConn := h'.nextConn.trans h.nextConn
  index := ⟨h'.index.1.trans h.index.1, h'.index.2.trans h.index.2⟩

/-- A step about some ids leaves the others apart. -/
theorem Local.apart {I : Set String} (h : Local I s t) : Apart I s t where
  created := le_of_eq h.created.symm
  id x _ := h.id x
  heap x _ hx := h.heap x hx
  lookup x hx := h.lookup x (h.id x ▸ hx)
  work b hb := (h.work b hb).imp_right fun ⟨o, ho, hoI⟩ => ⟨o, ho, (h.id o).symm ▸ hoI⟩
  kept := h.kept
  bindings := h.bindings
  nextConn := h.nextConn

/-- It passes no connection on. -/
theorem LinksFrom.local {I : Set String} (h : Local I s t) : LinksFrom s t := by
  intro x hx svc c hc
  rw [h.link] at hc
  exact ⟨x, h.created ▸ hx, (h.id x).symm, hc⟩

/-- An announcement is about the id of its object. -/
theorem Local.notifyStateChanged (o : Oid) (st : State) :
    Local {s.idOf o} s (s.notifyStateChanged o st) where
  created := notifyStateChanged_created s o st
  id x := idOf_notifyStateChanged s o x st
  heap x hx := by
    rw [notifyStateChanged_heap, Function.update_of_ne]
    rintro rfl
    exact hx rfl
  link x := by
    rw [notifyStateChanged_heap]
    by_cases hx : x = o
    · subst hx
      rw [Function.update_self]
    · rw [Function.update_of_ne hx]
  lookup x hx := by
    rw [lookup_notifyStateChanged, if_neg fun h => hx h.2]
  work b hb := by
    rw [work_notifyStateChanged] at hb
    exact .inl hb
  kept b hb := by
    rw [work_notifyStateChanged]
    exact hb
  bindings := notifyStateChanged_bindings s o st
  nextConn := notifyStateChanged_nextConn s o st
  index := ⟨notifyStateChanged_instances s o st, notifyStateChanged_instanceMap s o st⟩

/-- So is a posted block. -/
theorem Local.post {b : Block} {o : Oid} (hb : b.object? = some o) :
    Local {s.idOf o} s (s.post b) where
  created := rfl
  id _ := rfl
  heap _ _ := rfl
  link _ := rfl
  lookup _ _ := rfl
  work c hc := by
    rw [work_post, hb, List.mem_append] at hc
    rcases hc with hc | hc
    · exact .inl hc
    · simp only [Option.isSome_some, if_true, List.mem_singleton] at hc
      subst hc
      exact .inr ⟨o, hb, rfl⟩
  kept c hc := by
    rw [work_post]
    exact List.mem_append_left _ hc
  bindings := rfl
  nextConn := rfl
  index := ⟨rfl, rfl⟩

/-- So is a change of the slots that keeps the entries of other ids. -/
theorem Local.slots {I : Set String} {m : AList fun _ : Oid => Int}
    (hm : ∀ x, s.idOf x ∉ I → m.lookup x = s.slots.lookup x) : Local I s { s with slots := m } where
  created := rfl
  id _ := rfl
  heap _ _ := rfl
  link _ := rfl
  lookup := hm
  work _ hb := .inl hb
  kept _ hb := hb
  bindings := rfl
  nextConn := rfl
  index := ⟨rfl, rfl⟩

/-- So is a change of an object that keeps its id and links. -/
theorem Local.modify (o : Oid) {f : KlipperInstance → KlipperInstance}
    (hf : ∀ i, (f i).id = i.id) (hlink : ∀ i, (f i).link = i.link) :
    Local {s.idOf o} s (s.modify o f) where
  created := rfl
  id x := idOf_modify s o x f hf
  heap x hx := by
    rw [modify_heap, Function.update_of_ne]
    rintro rfl
    exact hx rfl
  link x := by
    rw [modify_heap]
    by_cases hx : x = o
    · subst hx
      rw [Function.update_self, hlink]
    · rw [Function.update_of_ne hx]
  lookup _ _ := rfl
  work _ hb := .inl hb
  kept _ hb := hb
  bindings := rfl
  nextConn := rfl
  index := ⟨rfl, rfl⟩

/-- `stop` is about the id of its object. -/
theorem Local.stop (o : Oid) : Local {s.idOf o} s (s.stop o) := by
  by_cases hst : s.stateOf o = .running ∨ s.stateOf o = .starting
  · rw [stop_eq s o hst]
    have hnotify := Local.notifyStateChanged (s := s) o .stopping
    have hpost := Local.post (s := s.notifyStateChanged o .stopping) (b := .unbind o) (o := o) rfl
    rw [hnotify.id] at hpost
    exact hnotify.trans hpost
  · rw [stop_eq_self s o hst]
    exact .refl _

/-- `start` is too. -/
theorem Local.start (o : Oid) (dirs : Dirs) : Local {s.idOf o} s (s.start o dirs).1 := by
  have hnotify := Local.notifyStateChanged (s := s) o .starting
  set t := s.notifyStateChanged o .starting with ht
  have hslot : ∀ k, Local {s.idOf o} s (t.modify o fun i => { i with slot := k }) := by
    intro k
    have hmodify := Local.modify (s := t) o (f := fun i => { i with slot := k })
      (fun _ => rfl) fun _ => rfl
    rw [hnotify.id] at hmodify
    exact hnotify.trans hmodify
  rcases start_cases s o dirs with ⟨-, heq⟩ | ⟨-, -, heq⟩ | ⟨-, -, -, -, heq⟩ |
    ⟨k, -, -, -, -, heq⟩
  · rw [heq]
    exact .refl _
  · rw [heq]
    have hstop := Local.stop (s := t) o
    rw [hnotify.id] at hstop
    exact hnotify.trans hstop
  · rw [heq]
    exact hslot (-1)
  · rw [heq]
    have hu := hslot k
    set u := t.modify o fun i => { i with slot := k } with hudef
    have hslots : Local {s.idOf o} u { u with slots := s.slots.insert o k } := by
      refine Local.slots fun x hx => ?_
      rw [AList.lookup_insert_ne]
      · rfl
      · rintro rfl
        exact hx (hu.id x)
    have hpost := Local.post (s := { u with slots := s.slots.insert o k })
      (b := .bind o (s.idOf o)) (o := o) rfl
    have hid : ({ u with slots := s.slots.insert o k } : Registry).idOf o = s.idOf o := hu.id o
    rw [hid] at hpost
    exact (hu.trans hslots).trans hpost

/-- What the companion refers to still exists. -/
theorem Local.indexed {I : Set String} (h : Local I s t) (hi : Indexed s) : Indexed t where
  instances o ho := by
    rw [h.index.1] at ho
    rw [h.created]
    exact hi.instances o ho
  instanceMap i o ho := by
    rw [h.index.2] at ho
    rw [h.created, h.id]
    exact hi.instanceMap i o ho

/-! ## The drop loop -/

/-- A step about some ids is one about more. -/
theorem Apart.mono {I J : Set String} (h : Apart I s t) (hsub : I ⊆ J) : Apart J s t where
  created := h.created
  id := h.id
  heap x hx hxJ := h.heap x hx fun hxI => hxJ (hsub hxI)
  lookup x hxJ := h.lookup x fun hxI => hxJ (hsub hxI)
  work b hb := (h.work b hb).imp_right fun ⟨o, ho, hoI⟩ => ⟨o, ho, hsub hoI⟩
  kept := h.kept
  bindings := h.bindings
  nextConn := h.nextConn

/-- `stop` leaves the slots to the block it posts. -/
theorem stop_slots (o : Oid) : (s.stop o).slots = s.slots := by
  by_cases hst : s.stateOf o = .running ∨ s.stateOf o = .starting
  · rw [stop_eq s o hst]
    rfl
  · rw [stop_eq_self s o hst]

/-- A key that commands its id, or that is stopping, may be dropped: its entry goes and, if
it was up, its unbind block is posted.
SOURCE: KlipperInstance.kt:271-277 -/
theorem SlotInv.drop (h : SlotInv s) {was : Oid} {k : Int} (hkey : s.slots.lookup was = some k)
    (hcmd : s.stateOf was = .running ∨ s.stateOf was = .starting → s.Commands was) :
    SlotInv (({ s with slots := s.slots.erase was } : Registry).stop was) ∧
      Local {s.idOf was} s (({ s with slots := s.slots.erase was } : Registry).stop was) := by
  have herase : ∀ x, (s.slots.erase was).lookup x =
      if s.idOf x = s.idOf was then none else s.slots.lookup x := by
    intro x
    by_cases hx : x = was
    · subst hx
      simp
    · rw [AList.lookup_erase_ne hx]
      split
      · next hsame =>
        cases hl : s.slots.lookup x with
        | none => rfl
        | some l => exact absurd (h.key_unique x was l k hl hkey hsame) hx
      · rfl
  have hstop := h.stop (h.live_key was k hkey) hcmd
  have hlocal := Local.stop (s := s) was
  have hslots : (s.stop was).slots = s.slots := stop_slots was
  have hno : ∀ l, ¬(s.stop was).Leased (s.idOf was) l := by
    by_cases hst : s.stateOf was = .running ∨ s.stateOf was = .starting
    · have hmem : .unbind was ∈ (s.stop was).work := by
        rw [stop_eq s was hst, work_post]
        exact List.mem_append_right _ List.mem_cons_self
      rw [← hlocal.id was]
      exact hstop.not_leased_of_unbind hmem
    · rw [stop_eq_self s was hst]
      refine h.stopping was k hkey ?_
      have hactive := h.key_active was k hkey
      cases hs : s.stateOf was with
      | idle => exact absurd hs hactive
      | starting => exact absurd (.inr hs) hst
      | running => exact absurd (.inl hs) hst
      | stopping => rfl
  have hcomm : ({ s with slots := s.slots.erase was } : Registry).stop was =
      { s.stop was with slots := s.slots.erase was } := by
    by_cases hst : s.stateOf was = .running ∨ s.stateOf was = .starting
    · rw [stop_eq s was hst, stop_eq { s with slots := s.slots.erase was } was hst]
      rfl
    · rw [stop_eq_self s was hst, stop_eq_self { s with slots := s.slots.erase was } was hst]
  rw [hcomm]
  refine ⟨hstop.strike hno fun x => ?_, hlocal.trans (.slots fun x hx => ?_)⟩
  · rw [hlocal.id, hslots, herase]
  · rw [hlocal.id] at hx
    rw [herase, hslots]
    exact if_neg hx

/-- The drop loop makes no entries. -/
theorem foldl_dropMissing_none (ids : List String) (ks : List Oid) {y : Oid}
    (h : s.slots.lookup y = none) : (ks.foldl (dropMissing ids) s).slots.lookup y = none := by
  induction ks generalizing s with
  | nil => exact h
  | cons was ks ih =>
    refine ih ?_
    unfold dropMissing
    split
    · exact h
    · rw [stop_slots]
      by_cases hy : y = was
      · subst hy
        simp
      · exact (AList.lookup_erase_ne hy).trans h

/-- A round of the drop loop posts no block but the unbind block of a key that is up.
SOURCE: KlipperInstance.kt:271-277 -/
theorem dropMissing_work (ids : List String) (was : Oid) {b : Block}
    (hb : b ∈ (dropMissing ids s was).work) : b ∈ s.work ∨
      (b = .unbind was ∧ s.idOf was ∉ ids ∧
        (s.stateOf was = .running ∨ s.stateOf was = .starting)) := by
  unfold dropMissing at hb
  split at hb
  · exact .inl hb
  · next hmiss =>
    by_cases hup : s.stateOf was = .running ∨ s.stateOf was = .starting
    · rw [stop_eq { s with slots := s.slots.erase was } was hup, work_post,
        work_notifyStateChanged] at hb
      simp only [Block.object?, Option.isSome_some, if_true, List.mem_append,
        List.mem_singleton] at hb
      exact hb.imp id fun heq => ⟨heq, hmiss, hup⟩
    · rw [stop_eq_self { s with slots := s.slots.erase was } was hup] at hb
      exact .inl hb

/-- What is up after a round of the drop loop was up before. -/
theorem dropMissing_up (ids : List String) (was : Oid) {y : Oid}
    (hy : (dropMissing ids s was).stateOf y = .running ∨
      (dropMissing ids s was).stateOf y = .starting) :
    s.stateOf y = .running ∨ s.stateOf y = .starting := by
  unfold dropMissing at hy
  split at hy
  · exact hy
  · by_cases hup : s.stateOf was = .running ∨ s.stateOf was = .starting
    · rw [stop_eq { s with slots := s.slots.erase was } was hup, stateOf, post_heap, ← stateOf,
        stateOf_notifyStateChanged] at hy
      split at hy
      · simp at hy
      · exact hy
    · rw [stop_eq_self { s with slots := s.slots.erase was } was hup] at hy
      exact hy

/-- The drop loop posts no block but the unbind blocks of keys that are up and not loaded. -/
theorem foldl_dropMissing_work (ids : List String) (ks : List Oid) {b : Block}
    (hb : b ∈ (ks.foldl (dropMissing ids) s).work) : b ∈ s.work ∨
      ∃ y ∈ ks, b = .unbind y ∧ s.idOf y ∉ ids ∧
        (s.stateOf y = .running ∨ s.stateOf y = .starting) := by
  induction ks generalizing s with
  | nil => exact .inl hb
  | cons was ks ih =>
    rw [List.foldl_cons] at hb
    have hid : ∀ y, (dropMissing ids s was).idOf y = s.idOf y := by
      intro y
      unfold dropMissing
      split
      · rfl
      · exact (Local.stop (s := { s with slots := s.slots.erase was }) was).id y
    rcases ih hb with hb | ⟨y, hy, heq, hmiss, hup⟩
    · rcases dropMissing_work ids was hb with hb | ⟨heq, hmiss, hup⟩
      · exact .inl hb
      · exact .inr ⟨was, List.mem_cons_self, heq, hmiss, hup⟩
    · rw [hid] at hmiss
      exact .inr ⟨y, List.mem_cons_of_mem _ hy, heq, hmiss, dropMissing_up ids was hup⟩

/-- **The drop loop**: the ids that are still loaded are left alone.
SOURCE: KlipperInstance.kt:270-277 -/
theorem foldl_dropMissing (ids : List String) (ks : List Oid) (h : SlotInv s)
    (hkeys : ∀ y ∈ ks, ∃ k, s.slots.lookup y = some k) (hnodup : ks.Nodup)
    (hcmd : ∀ y ∈ ks, s.idOf y ∉ ids →
      s.stateOf y = .running ∨ s.stateOf y = .starting → s.Commands y) :
    SlotInv (ks.foldl (dropMissing ids) s) ∧
      Apart {i | i ∉ ids} s (ks.foldl (dropMissing ids) s) ∧
      LinksFrom s (ks.foldl (dropMissing ids) s) ∧
      ∀ y ∈ ks, s.idOf y ∉ ids → (ks.foldl (dropMissing ids) s).slots.lookup y = none ∧
        (s.stateOf y = .running ∨ s.stateOf y = .starting →
          .unbind y ∈ (ks.foldl (dropMissing ids) s).work) := by
  induction ks generalizing s with
  | nil => exact ⟨h, .refl _, .refl, fun y hy => (List.not_mem_nil hy).elim⟩
  | cons was ks ih =>
    rw [List.nodup_cons] at hnodup
    obtain ⟨k, hk⟩ := hkeys was List.mem_cons_self
    rw [List.foldl_cons]
    by_cases hmem : s.idOf was ∈ ids
    · have hsame : dropMissing ids s was = s := by
        unfold dropMissing
        rw [if_pos hmem]
      rw [hsame]
      obtain ⟨hinv, hapart, hlinks, hgone⟩ := ih h (fun y hy => hkeys y (List.mem_cons_of_mem _ hy))
        hnodup.2 fun y hy => hcmd y (List.mem_cons_of_mem _ hy)
      refine ⟨hinv, hapart, hlinks, fun y hy hmiss => ?_⟩
      rcases List.mem_cons.mp hy with rfl | hy
      · exact absurd hmem hmiss
      · exact hgone y hy hmiss
    · obtain ⟨hinv, hlocal⟩ := h.drop hk (hcmd was List.mem_cons_self hmem)
      have hdrop : dropMissing ids s was =
          ({ s with slots := s.slots.erase was } : Registry).stop was := by
        unfold dropMissing
        rw [if_neg hmem]
      rw [hdrop]
      have hdropped : ∀ l, (({ s with slots := s.slots.erase was } : Registry).stop
          was).slots.lookup was ≠ some l := by
        intro l
        rw [stop_slots]
        simp
      have hunbind : s.stateOf was = .running ∨ s.stateOf was = .starting →
          .unbind was ∈ (({ s with slots := s.slots.erase was } : Registry).stop was).work := by
        intro hup
        rw [stop_eq { s with slots := s.slots.erase was } was hup, work_post]
        exact List.mem_append_right _ List.mem_cons_self
      set t := ({ s with slots := s.slots.erase was } : Registry).stop was
      -- two keys never carry one id
      have hother : ∀ y ∈ ks, s.idOf y ∉ ({s.idOf was} : Set String) := by
        intro y hy hsame
        obtain ⟨l, hl⟩ := hkeys y (List.mem_cons_of_mem _ hy)
        have heq := h.key_unique y was l k hl hk hsame
        exact hnodup.1 (heq ▸ hy)
      have hst : ∀ y ∈ ks, t.stateOf y = s.stateOf y := fun y hy => by
        rw [stateOf, hlocal.heap y (hother y hy), stateOf]
      have hkeys' : ∀ y ∈ ks, ∃ k, t.slots.lookup y = some k := by
        intro y hy
        rw [hlocal.lookup y (hother y hy)]
        exact hkeys y (List.mem_cons_of_mem _ hy)
      have hcmd' : ∀ y ∈ ks, t.idOf y ∉ ids →
          t.stateOf y = .running ∨ t.stateOf y = .starting → t.Commands y := by
        intro y hy hmiss hup
        rw [hlocal.id] at hmiss
        rw [hst y hy] at hup
        obtain ⟨l, hl⟩ := hkeys y (List.mem_cons_of_mem _ hy)
        exact (hcmd y (List.mem_cons_of_mem _ hy) hmiss hup).apart h hlocal.apart
          (h.live_key y l hl) (hother y hy)
      obtain ⟨hinv', hapart', hlinks', hgone'⟩ := ih hinv hkeys' hnodup.2 hcmd'
      have hsub : ({s.idOf was} ∪ {i | i ∉ ids} : Set String) ⊆ {i | i ∉ ids} := by
        rintro i (rfl | hi)
        · exact hmem
        · exact hi
      refine ⟨hinv', (hlocal.apart.trans hapart' h hinv).mono hsub,
        (LinksFrom.local hlocal).trans hlinks', fun y hy hmiss => ?_⟩
      rcases List.mem_cons.mp hy with rfl | hy
      · refine ⟨?_, fun hup => hapart'.kept _ ?_⟩
        · -- its entry is gone, and the later rounds only remove entries
          have hnone : t.slots.lookup y = none := by
            cases hl : t.slots.lookup y with
            | none => rfl
            | some l => exact absurd hl (hdropped l)
          exact foldl_dropMissing_none ids ks hnone
        · exact hunbind hup
      · rw [← hlocal.id y] at hmiss
        obtain ⟨hnone, hup⟩ := hgone' y hy hmiss
        exact ⟨hnone, fun h' => hup (by rwa [hst y hy])⟩

/-! ## The autostart loop -/

/-- **The autostart loop.**
SOURCE: KlipperInstance.kt:284-290 -/
theorem autostartAll_inv (dirs : String → Dirs) (os : List Oid) (h : SlotInv s)
    (hi : Indexed s) (hlive : ∀ o ∈ os, o < s.created) (hst : ∀ o ∈ os, s.Startable o)
    (hnodup : (os.map s.idOf).Nodup) :
    SlotInv (autostartAll dirs s os).1 ∧ Indexed (autostartAll dirs s os).1 := by
  induction os generalizing s with
  | nil => exact ⟨h, hi⟩
  | cons inst rest ih =>
    rw [List.map_cons, List.nodup_cons] at hnodup
    have hskip := ih h hi (fun o ho => hlive o (List.mem_cons_of_mem _ ho))
      (fun o ho => hst o (List.mem_cons_of_mem _ ho)) hnodup.2
    unfold autostartAll
    split
    · next hauto =>
      have hstart := h.start (hlive inst List.mem_cons_self) (dirs (s.idOf inst))
        (hst inst List.mem_cons_self hauto.1)
      have hlocal := Local.start (s := s) inst (dirs (s.idOf inst))
      have hindexed := hlocal.indexed hi
      rcases hrun : s.start inst (dirs (s.idOf inst)) with ⟨t, outcome⟩
      rw [hrun] at hstart hlocal hindexed
      cases outcome with
      | threw => exact ⟨hstart, hindexed⟩
      | returned =>
        have hother : ∀ o ∈ rest, s.idOf o ∉ ({s.idOf inst} : Set String) := by
          intro o ho hsame
          exact hnodup.1 (List.mem_map.mpr ⟨o, ho, hsame⟩)
        refine ih hstart hindexed (fun o ho => ?_) (fun o ho => ?_) ?_
        · rw [hlocal.created]
          exact hlive o (List.mem_cons_of_mem _ ho)
        · exact (hst o (List.mem_cons_of_mem _ ho)).apart h hlocal.apart
            (hlive o (List.mem_cons_of_mem _ ho)) (hother o ho)
        · rw [List.map_congr_left fun o _ => hlocal.id o]
          exact hnodup.2
    · exact hskip

/-! ## The whole reload -/

/-- The registry when a reload has replaced the companion's lists. -/
def refresh (s : Registry) (loaded : List Oid) : Registry :=
  ({ s.post .stopServers with instances := loaded, instanceMap := fun _ => none } : Registry).fire
    .instancesRefreshed

/-- What holds after the adoption loop (`s₁`) and after the drop loop (`s₂`) of a reload. -/
structure Staged (s : Registry) (loaded : List Oid) (s₁ s₂ : Registry) : Prop where
  inv₁ : SlotInv s₁
  apart₁ : Apart {i | i ∈ loaded.map s.idOf} s s₁
  work₁ : s₁.work = s.work
  startable : ∀ o ∈ loaded, s₁.Startable o
  links : LinksFrom s s₂
  copied : ∀ o ∈ loaded, Copied s o s₁
  newKey : ∀ o ∈ loaded, ∀ x k, s₁.slots.lookup x = some k → s₁.idOf x = s.idOf o →
    (∃ y l, s.slots.lookup y = some l ∧ s.idOf y = s.idOf o) ∨
      ∃ w, s.registered (s.idOf o) = some w ∧ s.stateOf w ≠ .idle
  inv₂ : SlotInv s₂
  apart₂ : Apart {i | i ∉ loaded.map s.idOf} s₁ s₂
  stopped : ∀ y k, s₁.slots.lookup y = some k → s₁.idOf y ∉ loaded.map s.idOf →
    s₁.stateOf y = .running ∨ s₁.stateOf y = .starting → .unbind y ∈ s₂.work
  posted : ∀ b ∈ s₂.work, b ∈ s₁.work ∨ ∃ y k, s₁.slots.lookup y = some k ∧ b = .unbind y ∧
    s₁.idOf y ∉ loaded.map s.idOf ∧ (s₁.stateOf y = .running ∨ s₁.stateOf y = .starting)
  dropped : ∀ y k, s₂.slots.lookup y = some k → s₂.idOf y ∈ loaded.map s.idOf

/-- No object goes away. -/
theorem Staged.created {loaded : List Oid} {s₁ s₂ : Registry} (h : Staged s loaded s₁ s₂) :
    s.created ≤ s₂.created :=
  h.apart₁.created.trans h.apart₂.created

/-- No object changes its id. -/
theorem Staged.id {loaded : List Oid} {s₁ s₂ : Registry} (h : Staged s loaded s₁ s₂) {x : Oid}
    (hx : x < s.created) : s₂.idOf x = s.idOf x :=
  (h.apart₂.id x (hx.trans_le h.apart₁.created)).trans (h.apart₁.id x hx)

/-- After the drop loop a loaded object is as the adoption loop left it. -/
theorem Staged.heap {loaded : List Oid} {s₁ s₂ : Registry} (h : Staged s loaded s₁ s₂) {o : Oid}
    (hlive : o < s.created) (ho : o ∈ loaded) : s₂.heap o = s₁.heap o := by
  refine h.apart₂.heap o (hlive.trans_le h.apart₁.created) fun hmiss => hmiss ?_
  rw [h.apart₁.id o hlive]
  exact List.mem_map_of_mem ho

/-- **The stages of a reload**, when every kept id's entry stands under the registered
object, every dropped key commands its id, and the ids it autostarts are free.
SOURCE: KlipperInstance.kt:249-283 -/
theorem reload_staged (h : SlotInv s) (hi : Indexed s) {loaded : List Oid}
    (db : Option (List Row)) (hash : Oid → Nat) (dirs : String → Dirs)
    (hw : ∀ o ∈ loaded, s.Awaiting o) (hnodup : (loaded.map s.idOf).Nodup)
    (hdrop : ∀ y ∈ s.slots.keys, s.idOf y ∉ loaded.map s.idOf →
      s.stateOf y = .running ∨ s.stateOf y = .starting → s.Commands y) :
    ∃ s₁ s₂, Staged s loaded s₁ s₂ ∧
      s.onInstancesLoadedFromDB loaded db hash dirs =
        autostartAll dirs (s₂.refresh loaded) loaded := by
  obtain ⟨hinv₁, hapart₁, hwork₁, hlinks₁, hround⟩ := foldl_adoptRow db loaded h hi hw hnodup
  set s₁ := loaded.foldl (adoptRow db) s with hs₁
  have hlive : ∀ o ∈ loaded, o < s.created := fun o ho => (hw o ho).fresh.live
  have hids : loaded.map s₁.idOf = loaded.map s.idOf :=
    List.map_congr_left fun o ho => hapart₁.id o (hlive o ho)
  set ks := s₁.slots.keys.insertionSort fun a b => hash a ≤ hash b with hks
  have hperm : ks.Perm s₁.slots.keys := List.perm_insertionSort _ _
  have hmem : ∀ y k, s₁.slots.lookup y = some k → y ∈ ks := fun y k hk =>
    hperm.symm.subset ((mem_keys_iff_lookup y).mpr ⟨k, hk⟩)
  have hcmd : ∀ y ∈ ks, s₁.idOf y ∉ loaded.map s₁.idOf →
      s₁.stateOf y = .running ∨ s₁.stateOf y = .starting → s₁.Commands y := by
    intro y hy hmiss hup
    obtain ⟨k, hk⟩ := (mem_keys_iff_lookup y).mp (hperm.subset hy)
    rw [hids] at hmiss
    -- a dropped key was a key before the adoption loop
    rw [hapart₁.lookup y hmiss] at hk
    have hy₁ := h.live_key y k hk
    rw [hapart₁.id y hy₁] at hmiss
    rw [stateOf, hapart₁.heap y hy₁ hmiss] at hup
    exact (hdrop y ((mem_keys_iff_lookup y).mpr ⟨k, hk⟩) hmiss hup).apart h hapart₁ hy₁ hmiss
  obtain ⟨hinv₂, hapart₂, hlinks₂, hgone⟩ := foldl_dropMissing (loaded.map s₁.idOf) ks hinv₁
    (fun y hy => (mem_keys_iff_lookup y).mp (hperm.subset hy))
    (hperm.nodup_iff.mpr s₁.slots.nodupKeys) hcmd
  have hrun : s.onInstancesLoadedFromDB loaded db hash dirs =
      autostartAll dirs ((ks.foldl (dropMissing (loaded.map s₁.idOf)) s₁).refresh loaded)
        loaded := rfl
  rw [hids] at hinv₂ hapart₂ hlinks₂ hgone hrun
  refine ⟨s₁, _, ⟨hinv₁, hapart₁, hwork₁, fun o ho => (hround o ho).1,
    hlinks₁.trans hlinks₂, fun o ho => (hround o ho).2.1, fun o ho => (hround o ho).2.2, hinv₂,
    hapart₂, ?_, fun b hb => ?_, ?_⟩, hrun⟩
  · exact fun y k hk hmiss hup => (hgone y (hmem y k hk) hmiss).2 hup
  · refine (foldl_dropMissing_work _ ks hb).imp_right ?_
    rintro ⟨y, hy, heq, hmiss, hup⟩
    obtain ⟨k, hk⟩ := (mem_keys_iff_lookup y).mp (hperm.subset hy)
    exact ⟨y, k, hk, heq, hmiss, hup⟩
  · intro y k hk
    by_contra hmiss
    cases hl : s₁.slots.lookup y with
    | none =>
      rw [foldl_dropMissing_none _ ks hl] at hk
      cases hk
    | some l =>
      rw [hapart₂.id y (hinv₁.live_key y l hl)] at hmiss
      rw [(hgone y (hmem y l hl) hmiss).1] at hk
      cases hk

/-- Replacing the lists queues nothing about an object. -/
theorem work_refresh (loaded : List Oid) : (s.refresh loaded).work = s.work :=
  (work_post .stopServers).trans (List.append_nil _)

/-- **A reload** keeps the ledger true.
SOURCE: KlipperInstance.kt:249-291 -/
theorem SlotInv.reload (h : SlotInv s) (hi : Indexed s) {loaded : List Oid}
    (db : Option (List Row)) (hash : Oid → Nat) (dirs : String → Dirs)
    (hw : ∀ o ∈ loaded, s.Awaiting o) (hnodup : (loaded.map s.idOf).Nodup)
    (hdrop : ∀ y ∈ s.slots.keys, s.idOf y ∉ loaded.map s.idOf →
      s.stateOf y = .running ∨ s.stateOf y = .starting → s.Commands y) :
    SlotInv (s.onInstancesLoadedFromDB loaded db hash dirs).1 ∧
      Indexed (s.onInstancesLoadedFromDB loaded db hash dirs).1 := by
  obtain ⟨s₁, s₂, hst, hrun⟩ := reload_staged h hi db hash dirs hw hnodup hdrop
  have hlive : ∀ o ∈ loaded, o < s.created := fun o ho => (hw o ho).fresh.live
  have hwork := work_refresh (s := s₂) loaded
  have hinv₃ : SlotInv (s₂.refresh loaded) :=
    hst.inv₂.quiet (Quiet.of_eq hst.inv₂ rfl rfl (fun _ => rfl) hwork rfl)
  have hindexed₃ : Indexed (s₂.refresh loaded) := by
    refine ⟨fun o ho => ?_, fun i o ho => ?_⟩
    · exact (hlive o ho).trans_le hst.created
    · cases ho
  rw [hrun]
  refine autostartAll_inv dirs loaded hinv₃ hindexed₃
    (fun o ho => (hlive o ho).trans_le hst.created) (fun o ho => ?_) ?_
  · have hkept : s₁.idOf o ∉ {i | i ∉ loaded.map s.idOf} := fun hmiss => hmiss (by
      rw [hst.apart₁.id o (hlive o ho)]
      exact List.mem_map_of_mem ho)
    have hst₂ := (hst.startable o ho).apart hst.inv₁ hst.apart₂
      ((hlive o ho).trans_le hst.apart₁.created) hkept
    intro hauto hidle
    exact (hst₂ hauto hidle).congr (fun _ => rfl) rfl rfl hwork
  · have hids₂ : ∀ o ∈ loaded, (s₂.refresh loaded).idOf o = s.idOf o :=
      fun o ho => hst.id (hlive o ho)
    rw [List.map_congr_left hids₂]
    exact hnodup

end Registry

end Cream.Model
