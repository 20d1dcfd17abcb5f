import Cream.Analysis.FailedStart
import Cream.Analysis.StoreRefinement

/-!
# What covers a binding

For one id: every binding of the id is held by an object that is about to release it, or by
the registered one, which is not idle (`Covered`). So when nothing about the id is queued and
its registered object is idle, nothing is bound for it. `Undisturbed` are the steps that keep
this whatever they do otherwise; left are the `start` of an object of the id, its two posted
blocks, and the reload, in which a new object takes the connections over (`Adopted`).
-/

set_option autoImplicit false

namespace Cream.Model

namespace Registry

variable {s t u : Registry} {i : String} {o : Oid}

/-! ## What covers a binding -/

/-- No block about the id is queued. -/
def NothingQueued (s : Registry) (i : String) : Prop :=
  ∀ b ∈ s.queue, ∀ o ∈ b.object?, s.idOf o ≠ i

instance (s : Registry) (i : String) : Decidable (s.NothingQueued i) :=
  inferInstanceAs (Decidable (∀ _ ∈ _, _))

/-- Nothing is bound for the id. -/
def NothingBound (s : Registry) (i : String) : Prop := ∀ b ∈ s.bindings, s.idOf b.owner ≠ i

instance (s : Registry) (i : String) : Decidable (s.NothingBound i) :=
  inferInstanceAs (Decidable (∀ _ ∈ _, _))

/-- The queued blocks about the id. -/
def aboutId (s : Registry) (i : String) : List Block :=
  s.queue.filter fun b => b.object?.any fun o => s.idOf o = i

/-- The object holds the connection of a binding. -/
def HoldsBinding (s : Registry) (o : Oid) (b : Binding) : Prop :=
  ((s.heap o).link b.svc).connection = some b.conn

/-- The objects that are referred to exist. -/
structure Existing (s : Registry) : Prop where
  indexed : Indexed s
  queue : ∀ b ∈ s.queue, ∀ o ∈ b.object?, o < s.created
  bindings : ∀ b ∈ s.bindings, b.owner < s.created

/-- The invariant of an id: what is bound for it will be released, or is held by the
registered object, which is up. -/
structure Covered (s : Registry) (i : String) : Prop where
  exist : Existing s
  bound : ∀ b ∈ s.bindings, s.idOf b.owner = i → ∃ y < s.created, s.idOf y = i ∧
    s.HoldsBinding y b ∧ (.unbind y ∈ s.queue ∨ (s.registered i = some y ∧ s.stateOf y ≠ .idle))
  bind : ∀ x n, .bind x n ∈ s.queue → s.idOf x = i → s.registered i = some x ∧
    s.NothingBound i ∧ (s.stateOf x ≠ .idle ∨ .unbind x ∈ s.queue)
  /-- of the blocks about the id only the first may be a bind block -/
  first : ∀ b ∈ (s.aboutId i).tail, b.bound? = none

/-- An idle id with nothing queued has nothing bound. -/
theorem Covered.nothingBound (h : s.Covered i) (hq : s.NothingQueued i)
    (hidle : ∀ w ∈ s.registered i, s.stateOf w = .idle) : s.NothingBound i := by
  intro b hb hid
  obtain ⟨y, -, hyid, -, hunbind | ⟨hreg, hst⟩⟩ := h.bound b hb hid
  · exact hq _ hunbind y rfl hyid
  · exact hst (hidle y hreg)

/-! ## Steps that keep it -/

/-- The step takes no connection from an object of the id, makes none of them idle, and
binds nothing for the id. -/
structure Undisturbed (i : String) (s t : Registry) : Prop where
  created : s.created ≤ t.created
  id : ∀ x < s.created, t.idOf x = s.idOf x
  indexed : Indexed s → Indexed t
  bindings : ∀ b ∈ t.bindings,
    (∃ c ∈ s.bindings, c.owner = b.owner ∧ c.svc = b.svc ∧ c.conn = b.conn) ∨
      (b.owner < t.created ∧ t.idOf b.owner ≠ i)
  held : ∀ y < s.created, s.idOf y = i → ∀ svc,
    ((t.heap y).link svc).connection = ((s.heap y).link svc).connection
  active : ∀ y < s.created, s.idOf y = i → s.stateOf y ≠ .idle → t.stateOf y ≠ .idle
  queue : ∃ p, t.queue = s.queue ++ p ∧
    ∀ b ∈ p, ∀ o ∈ b.object?, o < t.created ∧ (t.idOf o = i → b.bound? = none)
  registered : t.registered i = s.registered i

/-- Without a step nothing is disturbed. -/
theorem Undisturbed.refl (i : String) (s : Registry) : Undisturbed i s s where
  created := le_rfl
  id _ _ := rfl
  indexed h := h
  bindings b hb := .inl ⟨b, hb, rfl, rfl, rfl⟩
  held _ _ _ _ := rfl
  active _ _ _ h := h
  queue := ⟨[], (List.append_nil _).symm, fun _ hb => (List.not_mem_nil hb).elim⟩
  registered := rfl

/-- Two steps that do not disturb the id do not together. -/
theorem Undisturbed.trans (h : Undisturbed i s t) (h' : Undisturbed i t u) :
    Undisturbed i s u where
  created := h.created.trans h'.created
  id x hx := (h'.id x (hx.trans_le h.created)).trans (h.id x hx)
  indexed hi := h'.indexed (h.indexed hi)
  bindings b hb := by
    rcases h'.bindings b hb with ⟨c, hc, hown, hsvc, hconn⟩ | hother
    · rcases h.bindings c hc with ⟨d, hd, hown', hsvc', hconn'⟩ | ⟨hlt, hid⟩
      · exact .inl ⟨d, hd, hown'.trans hown, hsvc'.trans hsvc, hconn'.trans hconn⟩
      · rw [hown] at hlt hid
        exact .inr ⟨hlt.trans_le h'.created, by rwa [h'.id _ hlt]⟩
    · exact .inr hother
  held y hy hid svc :=
    (h'.held y (hy.trans_le h.created) ((h.id y hy).trans hid) svc).trans (h.held y hy hid svc)
  active y hy hid hst :=
    h'.active y (hy.trans_le h.created) ((h.id y hy).trans hid) (h.active y hy hid hst)
  queue := by
    obtain ⟨p, hq, hp⟩ := h.queue
    obtain ⟨p', hq', hp'⟩ := h'.queue
    refine ⟨p ++ p', by rw [hq', hq, List.append_assoc], fun b hb o ho => ?_⟩
    rcases List.mem_append.mp hb with hb | hb
    · obtain ⟨hlt, hbound⟩ := hp b hb o ho
      exact ⟨hlt.trans_le h'.created, fun hid => hbound ((h'.id o hlt).symm.trans hid)⟩
    · exact hp' b hb o ho
  registered := h'.registered.trans h.registered

/-- The blocks about an id after more have been appended. -/
theorem aboutId_append {p : List Block} (hs : Existing s) (hq : t.queue = s.queue ++ p)
    (hid : ∀ x < s.created, t.idOf x = s.idOf x) :
    t.aboutId i = s.aboutId i ++ p.filter fun b => b.object?.any fun o => t.idOf o = i := by
  unfold aboutId
  rw [hq, List.filter_append]
  congr 1
  refine List.filter_congr fun b hb => ?_
  cases ho : b.object? with
  | none => rfl
  | some o =>
    simp only [Option.any_some]
    rw [hid o (hs.queue b hb o ho)]

/-- What is referred to still exists. -/
theorem Undisturbed.existing (h : Undisturbed i s t) (hs : Existing s) : Existing t where
  indexed := h.indexed hs.indexed
  queue b hb o ho := by
    obtain ⟨p, hq, hp⟩ := h.queue
    rw [hq] at hb
    rcases List.mem_append.mp hb with hb | hb
    · exact (hs.queue b hb o ho).trans_le h.created
    · exact (hp b hb o ho).1
  bindings b hb := by
    rcases h.bindings b hb with ⟨c, hc, hown, -⟩ | ⟨hlt, -⟩
    · exact hown ▸ (hs.bindings c hc).trans_le h.created
    · exact hlt

/-- What has nothing bound still has nothing bound. -/
theorem Undisturbed.nothingBound (h : Undisturbed i s t) (hs : Existing s)
    (hno : s.NothingBound i) : t.NothingBound i := by
  intro b hb hid
  rcases h.bindings b hb with ⟨c, hc, hown, -⟩ | ⟨-, hne⟩
  · rw [← hown, h.id _ (hs.bindings c hc)] at hid
    exact hno c hc hid
  · exact hne hid

/-- **Undisturbed steps keep the invariant.** -/
theorem Covered.undisturbed (h : s.Covered i) (hu : Undisturbed i s t) : t.Covered i := by
  obtain ⟨p, hq, hp⟩ := hu.queue
  have hmem : ∀ b ∈ s.queue, b ∈ t.queue := fun b hb => by
    rw [hq]
    exact List.mem_append_left p hb
  refine ⟨hu.existing h.exist, fun b hb hid => ?_, fun x n hx hid => ?_, fun b hb => ?_⟩
  · rcases hu.bindings b hb with ⟨c, hc, hown, hsvc, hconn⟩ | ⟨-, hne⟩
    · rw [← hown, hu.id _ (h.exist.bindings c hc)] at hid
      obtain ⟨y, hy, hyid, hheld, hcover⟩ := h.bound c hc hid
      refine ⟨y, hy.trans_le hu.created, (hu.id y hy).trans hyid, ?_, ?_⟩
      · unfold HoldsBinding at hheld ⊢
        rw [hu.held y hy hyid, ← hsvc, ← hconn]
        exact hheld
      · rcases hcover with hunbind | ⟨hreg, hst⟩
        · exact .inl (hmem _ hunbind)
        · exact .inr ⟨hu.registered.trans hreg, hu.active y hy hyid hst⟩
    · exact absurd hid hne
  · have hx' : .bind x n ∈ s.queue := by
      rw [hq] at hx
      refine (List.mem_append.mp hx).resolve_right fun hx => ?_
      have hbound := (hp _ hx x rfl).2 hid
      cases hbound
    have hlt := h.exist.queue _ hx' x rfl
    have hid' : s.idOf x = i := (hu.id x hlt).symm.trans hid
    obtain ⟨hreg, hno, hst⟩ := h.bind x n hx' hid'
    refine ⟨hu.registered.trans hreg, hu.nothingBound h.exist hno, ?_⟩
    exact hst.imp (hu.active x hlt hid') (hmem _)
  · rw [aboutId_append h.exist hq hu.id] at hb
    have hb : b ∈ (s.aboutId i).tail ∨
        b ∈ p.filter fun b => b.object?.any fun o => t.idOf o = i := by
      cases hl : s.aboutId i with
      | nil =>
        rw [hl, List.nil_append] at hb
        exact .inr (List.mem_of_mem_tail hb)
      | cons c l =>
        rw [hl, List.cons_append, List.tail_cons] at hb
        exact List.mem_append.mp hb
    rcases hb with hb | hb
    · exact h.first b hb
    · obtain ⟨hbp, habout⟩ := List.mem_filter.mp hb
      obtain ⟨o, ho, hoid⟩ := (Option.any_eq_true _ _).mp habout
      exact (hp b hbp o ho).2 (of_decide_eq_true hoid)

/-- A step that changes one object. -/
theorem Undisturbed.of_heap {x : Oid} {p : List Block} (hcreated : t.created = s.created)
    (hheap : ∀ y, y ≠ x → t.heap y = s.heap y) (hid : t.idOf x = s.idOf x)
    (hx : s.idOf x = i → (∀ svc, ((t.heap x).link svc).connection =
      ((s.heap x).link svc).connection) ∧ (s.stateOf x ≠ .idle → t.stateOf x ≠ .idle))
    (hbindings : ∀ b ∈ t.bindings, ∃ c ∈ s.bindings, c.owner = b.owner ∧ c.svc = b.svc ∧
      c.conn = b.conn)
    (hqueue : t.queue = s.queue ++ p) (hp : ∀ b ∈ p, ∀ o ∈ b.object?, o < t.created ∧
      (t.idOf o = i → b.bound? = none))
    (hinst : t.instances = s.instances) (hmap : t.instanceMap = s.instanceMap) :
    Undisturbed i s t := by
  have hids : ∀ y, t.idOf y = s.idOf y := by
    intro y
    by_cases hy : y = x
    · exact hy ▸ hid
    · rw [idOf, hheap y hy, idOf]
  refine ⟨hcreated.ge, fun y _ => hids y, fun hi => ?_, fun b hb => .inl (hbindings b hb),
    fun y _ hyid svc => ?_, fun y _ hyid hst => ?_, ⟨p, hqueue, hp⟩,
    registered_congr hmap hinst (fun y _ => hids y) i⟩
  · exact hi.congr hcreated.ge (fun y _ => hids y) hinst hmap
  · by_cases hy : y = x
    · subst hy
      exact (hx hyid).1 svc
    · rw [hheap y hy]
  · by_cases hy : y = x
    · subst hy
      exact (hx hyid).2 hst
    · rwa [stateOf, hheap y hy]

/-- A step that changes no object. -/
theorem Undisturbed.of_same {p : List Block} (hcreated : t.created = s.created)
    (hheap : t.heap = s.heap)
    (hbindings : ∀ b ∈ t.bindings, ∃ c ∈ s.bindings, c.owner = b.owner ∧ c.svc = b.svc ∧
      c.conn = b.conn)
    (hqueue : t.queue = s.queue ++ p) (hp : ∀ b ∈ p, ∀ o ∈ b.object?, o < t.created ∧
      (t.idOf o = i → b.bound? = none))
    (hinst : t.instances = s.instances) (hmap : t.instanceMap = s.instanceMap) :
    Undisturbed i s t := by
  have hid : t.idOf 0 = s.idOf 0 := by rw [idOf, hheap, idOf]
  refine .of_heap (x := 0) hcreated (fun y _ => by rw [hheap]) hid (fun _ => ?_) hbindings hqueue
    hp hinst hmap
  refine ⟨fun svc => by rw [hheap], fun hst => ?_⟩
  rwa [stateOf, hheap]

/-- The bindings are among themselves. -/
theorem sameBindings (hb : t.bindings = s.bindings) : ∀ b ∈ t.bindings,
    ∃ c ∈ s.bindings, c.owner = b.owner ∧ c.svc = b.svc ∧ c.conn = b.conn :=
  fun b hmem => ⟨b, hb ▸ hmem, rfl, rfl, rfl⟩

/-! ## The operations -/

/-- A state change, except one that makes an object of the id idle. -/
theorem Undisturbed.notifyStateChanged (s : Registry) {x : Oid} {st : State}
    (hx : s.idOf x = i → s.stateOf x ≠ .idle → st ≠ .idle) :
    Undisturbed i s (s.notifyStateChanged x st) := by
  refine .of_heap (x := x) (notifyStateChanged_created ..) (fun y hy => ?_)
    (idOf_notifyStateChanged ..) (fun hid => ⟨fun svc => ?_, fun hst => ?_⟩)
    (sameBindings (notifyStateChanged_bindings ..)) (notifyStateChanged_queue ..)
    (fun b hb o ho => ?_) (notifyStateChanged_instances ..) (notifyStateChanged_instanceMap ..)
  · rw [notifyStateChanged_heap, Function.update_of_ne hy]
  · rw [notifyStateChanged_heap, Function.update_self]
  · rw [stateOf_notifyStateChanged, if_pos rfl]
    exact hx hid hst
  · cases st with
    | idle =>
      rw [List.mem_singleton.mp hb] at ho
      cases ho
    | starting => cases hb
    | running =>
      rw [List.mem_singleton.mp hb] at ho
      cases ho
    | stopping => cases hb

/-- Assigning fields of an object that are not its id, its state or a connection. -/
theorem Undisturbed.modify (s : Registry) (x : Oid) {f : KlipperInstance → KlipperInstance}
    (hid : ∀ j, (f j).id = j.id)
    (hx : s.idOf x = i → (∀ j svc, ((f j).link svc).connection = (j.link svc).connection) ∧
      ∀ j, (f j).state = j.state) : Undisturbed i s (s.modify x f) := by
  refine .of_heap (x := x) (p := []) rfl (fun y hy => ?_) (idOf_modify s x x f hid)
    (fun hxid => ?_) (sameBindings rfl) (List.append_nil _).symm
    (fun b hb => (List.not_mem_nil hb).elim) rfl rfl
  · rw [modify_heap, Function.update_of_ne hy]
  · unfold stateOf
    rw [modify_heap, Function.update_self]
    obtain ⟨hlink, hstate⟩ := hx hxid
    exact ⟨fun svc => hlink _ svc, fun hst => by rwa [hstate]⟩

/-- An unbind block, or a bind block of another id. -/
theorem Undisturbed.post (s : Registry) {b : Block}
    (hb : ∀ o ∈ b.object?, o < s.created ∧ (s.idOf o = i → b.bound? = none)) :
    Undisturbed i s (s.post b) :=
  .of_same (p := [b]) rfl rfl (sameBindings rfl) rfl
    (fun c hc => by rwa [List.mem_singleton.mp hc]) rfl rfl

/-- The slots do not matter. -/
theorem Undisturbed.slots (s : Registry) (slots : AList fun _ : Oid => Int) :
    Undisturbed i s { s with slots := slots } :=
  .of_same (p := []) rfl rfl (sameBindings rfl) (List.append_nil _).symm
    (fun _ hb => (List.not_mem_nil hb).elim) rfl rfl

/-- `stop` does not disturb an id: it only makes an object that is up stopping.
SOURCE: KlipperInstance.kt:135-140 -/
theorem Undisturbed.stop (s : Registry) {x : Oid} (hx : x < s.created) :
    Undisturbed i s (s.stop x) := by
  by_cases hst : s.stateOf x = .running ∨ s.stateOf x = .starting
  · rw [stop_eq s x hst]
    have hnotify : Undisturbed i s (s.notifyStateChanged x .stopping) :=
      .notifyStateChanged s fun _ _ => nofun
    refine hnotify.trans (.post _ fun o ho => ?_)
    simp only [Block.object?, Option.mem_some] at ho
    subst ho
    exact ⟨by rwa [notifyStateChanged_created], fun _ => rfl⟩
  · rw [stop_eq_self s x hst]
    exact .refl i s

/-- `start`, up to the post of its bind block; with that block it is an undisturbed step of
the other ids. -/
theorem start_undisturbed (s : Registry) {x : Oid} (hx : x < s.created) (dirs : Dirs) :
    Undisturbed i s (s.start x dirs).1 ∨ ∃ u, Undisturbed i s u ∧
      (s.start x dirs).1 = u.post (.bind x (s.idOf x)) ∧ u.bindings = s.bindings ∧
        u.queue = s.queue ∧ u.stateOf x = .starting ∧ s.stateOf x = .idle := by
  have hnotify : Undisturbed i s (s.notifyStateChanged x .starting) :=
    .notifyStateChanged s fun _ _ => nofun
  have hslot : ∀ k : Int, Undisturbed i s
      ((s.notifyStateChanged x .starting).modify x fun j => { j with slot := k }) := fun k =>
    hnotify.trans (.modify _ x (fun _ => rfl) fun _ => ⟨fun _ _ => rfl, fun _ => rfl⟩)
  rcases start_cases s x dirs with ⟨-, heq⟩ | ⟨-, -, heq⟩ | ⟨-, -, -, -, heq⟩ |
    ⟨k, hidle, -, -, -, heq⟩
  · rw [heq]
    exact .inl (.refl i s)
  · rw [heq]
    exact .inl (hnotify.trans (.stop _ (by rwa [notifyStateChanged_created])))
  · rw [heq]
    exact .inl (hslot (-1))
  · rw [heq]
    refine .inr ⟨_, (hslot k).trans (.slots _ (s.slots.insert x k)), rfl, rfl, ?_, ?_, hidle⟩
    · show (s.notifyStateChanged x .starting).queue = s.queue
      rw [notifyStateChanged_queue]
      exact List.append_nil _
    · unfold stateOf
      show (((s.notifyStateChanged x .starting).modify x fun j => { j with slot := k }).heap
        x).state = .starting
      rw [modify_heap, Function.update_self, notifyStateChanged_heap, Function.update_self]

/-- `start` of an object of another id does not disturb it. -/
theorem Undisturbed.start (s : Registry) {x : Oid} (hx : x < s.created) (hid : s.idOf x ≠ i)
    (dirs : Dirs) : Undisturbed i s (s.start x dirs).1 := by
  rcases start_undisturbed (i := i) s hx dirs with h | ⟨u, h, heq, -⟩
  · exact h
  · rw [heq]
    refine h.trans (.post u fun o ho => ?_)
    simp only [Block.object?, Option.mem_some] at ho
    subst ho
    exact ⟨hx.trans_le h.created, fun hne => absurd ((h.id x hx).symm.trans hne) hid⟩

/-- The bind block of the registered object, when nothing else is queued or bound. -/
theorem Covered.postBind (h : s.Covered i) {x : Oid} {n : String} (hx : x < s.created)
    (hreg : s.registered i = some x) (hq : s.NothingQueued i) (hno : s.NothingBound i)
    (hst : s.stateOf x ≠ .idle) : (s.post (.bind x n)).Covered i := by
  have hreg' : (s.post (.bind x n)).registered i = s.registered i :=
    registered_congr (s := s) (t := s.post (.bind x n)) rfl rfl (fun _ _ => rfl) i
  refine ⟨⟨⟨h.exist.indexed.instances, h.exist.indexed.instanceMap⟩, fun b hb o ho => ?_,
    h.exist.bindings⟩, fun b hb hid => ?_, fun y m hy hid => ?_, fun b hb => ?_⟩
  · rw [post_queue] at hb
    rcases List.mem_append.mp hb with hb | hb
    · exact h.exist.queue b hb o ho
    · rw [List.mem_singleton.mp hb] at ho
      simp only [Block.object?, Option.mem_some] at ho
      exact ho ▸ hx
  · exact absurd hid (hno b hb)
  · rw [post_queue] at hy
    rcases List.mem_append.mp hy with hy | hy
    · exact absurd hid (hq _ hy y rfl)
    · have hy := List.mem_singleton.mp hy
      cases hy
      exact ⟨hreg'.trans hreg, hno, .inl hst⟩
  · have hnil : s.aboutId i = [] := by
      refine List.filter_eq_nil_iff.mpr fun c hc habout => ?_
      obtain ⟨o, ho, hoid⟩ := (Option.any_eq_true _ _).mp habout
      exact hq c hc o ho (of_decide_eq_true hoid)
    have htail := aboutId_append (i := i) (t := s.post (.bind x n)) h.exist rfl fun _ _ => rfl
    rw [hnil, List.nil_append] at htail
    rw [htail] at hb
    have hlen := List.length_filter_le (fun b : Block =>
      b.object?.any fun o => (s.post (.bind x n)).idOf o = i) [.bind x n]
    cases hl : [Block.bind x n].filter fun b =>
        b.object?.any fun o => (s.post (.bind x n)).idOf o = i with
    | nil =>
      rw [hl] at hb
      cases hb
    | cons c l =>
      rw [hl] at hb hlen
      have hnone : l = [] := List.length_eq_zero_iff.mp (by simpa using hlen)
      rw [hnone] at hb
      cases hb

/-- `start` of the registered object, when nothing about its id is queued.
SOURCE: KlipperInstance.kt:46-133 -/
theorem Covered.start (h : s.Covered i) {x : Oid} (hx : x < s.created)
    (hcareful : s.idOf x = i → s.stateOf x = .idle → s.registered i = some x ∧ s.NothingQueued i)
    (dirs : Dirs) : (s.start x dirs).1.Covered i := by
  rcases start_undisturbed (i := i) s hx dirs with hu | ⟨u, hu, heq, hbind, hqueue, hst, hidle⟩
  · exact h.undisturbed hu
  · by_cases hid : s.idOf x = i
    · obtain ⟨hreg, hq⟩ := hcareful hid hidle
      have hno : s.NothingBound i := h.nothingBound hq fun w hw => by
        rw [hreg, Option.mem_some] at hw
        exact hw ▸ hidle
      rw [heq]
      refine (h.undisturbed hu).postBind (hx.trans_le hu.created) (hu.registered.trans hreg)
        (fun b hb o ho => ?_) (hu.nothingBound h.exist hno) (by rw [hst]; nofun)
      rw [hqueue] at hb
      rw [hu.id o (h.exist.queue b hb o ho)]
      exact hq b hb o ho
    · exact h.undisturbed (.start s hx hid dirs)

/-! ## The posted blocks and the callbacks -/

/-- Nor does a service of another id that is gone. -/
theorem Undisturbed.onUnbound (svc : Svc) (s : Registry) {x : Oid} (hid : s.idOf x ≠ i) :
    Undisturbed i s (Registry.onUnbound svc s x) := by
  have hlink : Undisturbed i s (s.modifyLink x svc fun l =>
      { l with connection := none, connected := false }) :=
    .modify s x (fun _ => rfl) fun h => absurd h hid
  have hkeep : (s.modifyLink x svc fun l => { l with connection := none, connected := false }).idOf
      x = s.idOf x := idOf_modify s x x _ fun _ => rfl
  unfold Registry.onUnbound
  simp only
  split
  · exact hlink
  · exact hlink.trans (.notifyStateChanged _ fun h => absurd (hkeep.symm.trans h) hid)

/-- Nor does marking a binding. -/
theorem Undisturbed.setConnected (s : Registry) (c : Conn) (flag : Bool) :
    Undisturbed i s (s.setConnected c flag) := by
  refine .of_same (p := []) rfl rfl (fun b hb => ?_) (List.append_nil _).symm
    (fun b hb => (List.not_mem_nil hb).elim) rfl rfl
  rw [setConnected_bindings] at hb
  obtain ⟨d, hd, rfl⟩ := List.mem_map.mp hb
  refine ⟨d, hd, ?_⟩
  split <;> exact ⟨rfl, rfl, rfl⟩

/-- Nor does a service that comes up.
SOURCE: KlipperInstance.kt:95-133 -/
theorem Undisturbed.onServiceConnected (s : Registry) (b : Binding) :
    Undisturbed i s (s.onServiceConnected b) := by
  have hlink : Undisturbed i s ((s.setConnected b.conn true).modifyLink b.owner b.svc fun l =>
      { l with connected := true }) := by
    refine (Undisturbed.setConnected s b.conn true).trans (.modify _ b.owner (fun _ => rfl)
      fun _ => ⟨fun j svc => ?_, fun _ => rfl⟩)
    by_cases hsvc : svc = b.svc
    · subst hsvc
      simp
    · simp [hsvc]
  unfold Registry.onServiceConnected
  simp only
  split
  · exact hlink.trans (.notifyStateChanged _ fun _ _ => nofun)
  · exact hlink

/-- Nor does a service of another id that is lost.
SOURCE: KlipperInstance.kt:166-180 -/
theorem Undisturbed.onServiceDisconnected (s : Registry) {b : Binding}
    (hid : s.idOf b.owner ≠ i) : Undisturbed i s (s.onServiceDisconnected b) :=
  (Undisturbed.setConnected s b.conn false).trans (.onUnbound b.svc _ hid)

/-- Taking a block away that is not about the id. -/
theorem Covered.pop (h : s.Covered i) {b : Block} {q : List Block} (hq : s.queue = b :: q)
    (hb : ∀ o ∈ b.object?, s.idOf o ≠ i) : ({ s with queue := q } : Registry).Covered i := by
  have hkeep : ∀ c ∈ s.queue, ∀ o ∈ c.object?, s.idOf o = i → c ∈ q := by
    intro c hc o ho hid
    rw [hq] at hc
    refine (List.mem_cons.mp hc).resolve_left fun heq => ?_
    subst heq
    exact hb o ho hid
  have hmem : ∀ c ∈ q, c ∈ s.queue := fun c hc => hq ▸ List.mem_cons_of_mem b hc
  have habout : ({ s with queue := q } : Registry).aboutId i = s.aboutId i := by
    unfold aboutId
    rw [hq, List.filter_cons_of_neg]
    · rfl
    · intro hany
      obtain ⟨o, ho, hoid⟩ := (Option.any_eq_true _ _).mp hany
      exact hb o ho (of_decide_eq_true hoid)
  have hreg : ({ s with queue := q } : Registry).registered i = s.registered i :=
    registered_congr (s := s) (t := { s with queue := q }) rfl rfl (fun _ _ => rfl) i
  refine ⟨⟨⟨h.exist.indexed.instances, h.exist.indexed.instanceMap⟩,
    fun c hc => h.exist.queue c (hmem c hc), h.exist.bindings⟩, fun c hc hid => ?_,
    fun x n hx hid => ?_, fun c hc => ?_⟩
  · obtain ⟨y, hy, hyid, hheld, hcover⟩ := h.bound c hc hid
    exact ⟨y, hy, hyid, hheld, hcover.imp (fun hu => hkeep _ hu y rfl hyid)
      fun hr => ⟨hreg.trans hr.1, hr.2⟩⟩
  · obtain ⟨hr, hno, hst⟩ := h.bind x n (hmem _ hx) hid
    exact ⟨hreg.trans hr, hno, hst.imp_right fun hu => hkeep _ hu x rfl hid⟩
  · rw [habout] at hc
    exact h.first c hc

/-- A block about the id leaves no bind block of it behind itself. -/
theorem Covered.head (h : s.Covered i) {b : Block} {q : List Block} (hq : s.queue = b :: q)
    {o : Oid} (ho : b.object? = some o) (hid : s.idOf o = i) :
    (∀ c ∈ ({ s with queue := q } : Registry).aboutId i, c.bound? = none) ∧
      ∀ x n, .bind x n ∈ q → s.idOf x ≠ i := by
  have habout : s.aboutId i = b :: ({ s with queue := q } : Registry).aboutId i := by
    unfold aboutId
    rw [hq, List.filter_cons_of_pos]
    · rfl
    · rw [ho, Option.any_some]
      exact decide_eq_true hid
  have hnone : ∀ c ∈ ({ s with queue := q } : Registry).aboutId i, c.bound? = none := by
    intro c hc
    refine h.first c ?_
    rw [habout, List.tail_cons]
    exact hc
  refine ⟨hnone, fun x n hx hxid => ?_⟩
  have hmem : Block.bind x n ∈ ({ s with queue := q } : Registry).aboutId i :=
    List.mem_filter.mpr ⟨hx, by
      rw [Block.object?, Option.any_some]
      exact decide_eq_true hxid⟩
  have hbound := hnone _ hmem
  cases hbound

/-- The bind block of the registered object.
SOURCE: KlipperInstance.kt:91-132 -/
theorem Covered.runBind (h : s.Covered i) {x : Oid} {n : String} {q : List Block}
    (hq : s.queue = .bind x n :: q) (hid : s.idOf x = i) :
    (({ s with queue := q } : Registry).runBind x n).Covered i := by
  obtain ⟨hreg, hno, hst⟩ := h.bind x n (hq ▸ List.mem_cons_self) hid
  obtain ⟨hrest, hnobind⟩ := h.head hq rfl hid
  have hx : x < s.created := h.exist.queue _ (hq ▸ List.mem_cons_self) x rfl
  have hmem : ∀ c ∈ q, c ∈ s.queue := fun c hc => hq ▸ List.mem_cons_of_mem _ hc
  set p : Registry := { s with queue := q } with hp
  by_cases hservice : HasService (p.heap x).slot
  · have hrun := runBind_eq p x n hservice
    set t := p.runBind x n with ht
    have hne : ∀ y, y ≠ x → t.heap y = s.heap y := fun y hy => by
      rw [hrun]
      exact Function.update_of_ne hy _ _
    have hself : (t.heap x).toRow = (s.heap x).toRow ∧ t.stateOf x = s.stateOf x := by
      unfold stateOf
      rw [hrun]
      simp [hp]
    have hids : ∀ y, t.idOf y = s.idOf y := by
      intro y
      by_cases hy : y = x
      · subst hy
        exact congrArg Row.id hself.1
      · rw [idOf, hne y hy, idOf]
    have hcreated : t.created = s.created := by rw [hrun]
    have hqueue : t.queue = q := by rw [hrun]
    have hinst : t.instances = s.instances := by rw [hrun]
    have hmap : t.instanceMap = s.instanceMap := by rw [hrun]
    have hregt : t.registered i = some x :=
      (registered_congr hmap hinst (fun y _ => hids y) i).trans hreg
    -- the two new bindings are held by their owner
    have hbindings : ∀ b ∈ t.bindings, b ∈ s.bindings ∨ (b.owner = x ∧ t.HoldsBinding x b) := by
      intro b hb
      rw [hrun] at hb
      rcases List.mem_append.mp hb with hb | hb
      · exact .inl hb
      · right
        simp only [List.mem_cons, List.not_mem_nil, or_false] at hb
        rcases hb with rfl | rfl <;> exact ⟨rfl, by rw [HoldsBinding, hrun]; simp⟩
    refine ⟨⟨h.exist.indexed.congr hcreated.ge (fun y _ => hids y) hinst hmap, fun b hb o ho => ?_,
      fun b hb => ?_⟩, fun b hb hbid => ?_, fun y m hy hyid => ?_, fun b hb => ?_⟩
    · rw [hqueue] at hb
      exact hcreated ▸ h.exist.queue b (hmem b hb) o ho
    · rw [hcreated]
      rcases hbindings b hb with hb | ⟨hown, -⟩
      · exact h.exist.bindings b hb
      · exact hown ▸ hx
    · rcases hbindings b hb with hb | ⟨hown, hheld⟩
      · exact absurd ((hids _).symm.trans hbid) (hno b hb)
      · refine ⟨x, hcreated ▸ hx, (hids x).trans hid, hheld, ?_⟩
        rcases hst with hst | hunbind
        · exact .inr ⟨hregt, hself.2 ▸ hst⟩
        · rw [hq] at hunbind
          rw [hqueue]
          exact .inl ((List.mem_cons.mp hunbind).resolve_left fun heq => by cases heq)
    · rw [hqueue] at hy
      exact absurd ((hids y).symm.trans hyid) (hnobind y m hy)
    · have habout : t.aboutId i = p.aboutId i := by
        unfold aboutId
        rw [hqueue]
        exact List.filter_congr fun c _ => by simp only [hids]; rfl
      rw [habout] at hb
      exact hrest b (List.mem_of_mem_tail hb)
  · have hcrash : p.runBind x n = { p with crashed := true } := by
      unfold Registry.runBind
      rw [if_neg hservice]
    rw [hcrash]
    exact ⟨⟨⟨h.exist.indexed.instances, h.exist.indexed.instanceMap⟩,
      fun b hb => h.exist.queue b (hmem b hb), h.exist.bindings⟩,
      fun b hb hbid => absurd hbid (hno b hb),
      fun y m hy hyid => absurd hyid (hnobind y m hy),
      fun b hb => hrest b (List.mem_of_mem_tail hb)⟩

/-- The unbind block releases what its object holds, and leaves the rest as covered as it
was.
SOURCE: KlipperInstance.kt:140-163 -/
theorem Covered.runUnbind (h : s.Covered i) {x : Oid} {q : List Block}
    (hq : s.queue = .unbind x :: q) (hid : s.idOf x = i) :
    (({ s with queue := q } : Registry).runUnbind x).Covered i := by
  obtain ⟨hrest, hnobind⟩ := h.head hq rfl hid
  have hmem : ∀ c ∈ q, c ∈ s.queue := fun c hc => hq ▸ List.mem_cons_of_mem _ hc
  set p : Registry := { s with queue := q } with hp
  obtain ⟨hrel, -, hbindings⟩ := runUnbind_spec (s := p) (o := x)
  set t := p.runUnbind x
  have hids : ∀ y, t.idOf y = s.idOf y := hrel.idOf
  obtain ⟨m, hqueue⟩ := hrel.queue
  have hregt : t.registered i = s.registered i :=
    registered_congr (s := s) hrel.instanceMap hrel.instances (fun y _ => hids y) i
  have hqueue' : ∀ c ∈ t.queue, c ∈ q ∨ c = .stopServers := by
    intro c hc
    rw [hqueue] at hc
    rcases List.mem_append.mp hc with hc | hc
    · exact .inl hc
    · exact .inr (List.eq_of_mem_replicate hc)
  refine ⟨⟨h.exist.indexed.congr hrel.created.ge (fun y _ => hids y) hrel.instances
    hrel.instanceMap, fun b hb o ho => ?_, fun b hb => ?_⟩, fun b hb hbid => ?_,
    fun y n hy hyid => ?_, fun b hb => ?_⟩
  · rw [hrel.created]
    rcases hqueue' b hb with hb | rfl
    · exact h.exist.queue b (hmem b hb) o ho
    · cases ho
  · rw [hbindings] at hb
    rw [hrel.created]
    exact h.exist.bindings b (List.mem_filter.mp hb).1
  · rw [hbindings] at hb
    obtain ⟨hb, hnot⟩ := List.mem_filter.mp hb
    obtain ⟨y, hy, hyid, hheld, hcover⟩ := h.bound b hb ((hids _).symm.trans hbid)
    have hne : y ≠ x := by
      rintro rfl
      have hnot : ¬p.Holds y b.conn := of_decide_eq_true hnot
      exact hnot ⟨b.svc, hheld⟩
    have hheap : t.heap y = s.heap y := hrel.heap_ne y hne
    refine ⟨y, hrel.created ▸ hy, (hids y).trans hyid, ?_, ?_⟩
    · unfold HoldsBinding at hheld ⊢
      rwa [hheap]
    · rcases hcover with hunbind | ⟨hr, hst⟩
      · left
        rw [hq] at hunbind
        have hin : .unbind y ∈ q := (List.mem_cons.mp hunbind).resolve_left fun heq => by
          cases heq
          exact hne rfl
        rw [hqueue]
        exact List.mem_append_left _ hin
      · exact .inr ⟨hregt.trans hr, by rwa [stateOf, hheap]⟩
  · rcases hqueue' _ hy with hy | hy
    · exact absurd ((hids y).symm.trans hyid) (hnobind y n hy)
    · cases hy
  · have habout : ∀ c ∈ t.aboutId i, c.bound? = none := by
      intro c hc
      obtain ⟨hc, hany⟩ := List.mem_filter.mp hc
      rcases hqueue' c hc with hc | rfl
      · refine hrest c (List.mem_filter.mpr ⟨hc, ?_⟩)
        simp only [hids] at hany
        exact hany
      · rfl
    exact habout b (List.mem_of_mem_tail hb)

/-- Nor does the unbind block of another id. -/
theorem Undisturbed.runUnbind (s : Registry) {x : Oid} (hid : s.idOf x ≠ i) :
    Undisturbed i s (s.runUnbind x) := by
  obtain ⟨hrel, -, hbindings⟩ := runUnbind_spec (s := s) (o := x)
  obtain ⟨m, hqueue⟩ := hrel.queue
  refine .of_heap (x := x) hrel.created hrel.heap_ne (hrel.idOf x) (fun h => absurd h hid)
    (fun b hb => ?_) hqueue (fun b hb o ho => ?_) hrel.instances hrel.instanceMap
  · rw [hbindings] at hb
    exact ⟨b, (List.mem_filter.mp hb).1, rfl, rfl, rfl⟩
  · rw [List.eq_of_mem_replicate hb] at ho
    cases ho

/-- Nor does the bind block of another id. -/
theorem Undisturbed.runBind (s : Registry) {x : Oid} (n : String) (hx : x < s.created)
    (hid : s.idOf x ≠ i) : Undisturbed i s (s.runBind x n) := by
  have hone : ∀ (t : Registry) svc, x < t.created → t.idOf x ≠ i →
      Undisturbed i t (t.bindService x svc n) := by
    intro t svc hlt hne
    have hlink : Undisturbed i t (t.modifyLink x svc fun l =>
        { l with intent := some (t.heap x).slot, connection := some t.nextConn }) :=
      .modify t x (fun _ => rfl) fun h => absurd h hne
    have hids : ∀ y, (t.bindService x svc n).idOf y = t.idOf y := fun y =>
      congrArg Row.id ((SameCaches.bindService t x svc n).row y)
    refine ⟨hlink.created, hlink.id, fun hi => hi.congr le_rfl (fun y _ => hids y) rfl rfl,
      fun b hb => ?_, hlink.held, hlink.active, hlink.queue,
      registered_congr (s := t) (t := t.bindService x svc n) rfl rfl (fun y _ => hids y) i⟩
    have hb : b ∈ t.bindings ++ [⟨t.nextConn, x, svc, (t.heap x).slot, n, false⟩] := hb
    rcases List.mem_append.mp hb with hb | hb
    · exact .inl ⟨b, hb, rfl, rfl, rfl⟩
    · rw [List.mem_singleton.mp hb]
      exact .inr ⟨hlt, fun h => hne ((hlink.id x hlt).symm.trans h)⟩
  unfold Registry.runBind
  split
  · have hk := hone s .klippy hx hid
    exact hk.trans (hone _ .moonraker (hx.trans_le hk.created)
      fun h => hid ((hk.id x hx).symm.trans h))
  · exact .of_same (p := []) rfl rfl (sameBindings rfl) (List.append_nil _).symm
      (fun b hb => (List.not_mem_nil hb).elim) rfl rfl

/-- Nor does stopping the servers. -/
theorem Undisturbed.stopServers (s : Registry) :
    Undisturbed i s s.stopServerServicesIfNoSlots := by
  unfold stopServerServicesIfNoSlots
  split
  · exact .refl i s
  · cases s.webServerConnection <;> cases s.cameraServerConnection <;>
      exact .of_same (p := []) rfl rfl (sameBindings rfl) (List.append_nil _).symm
        (fun b hb => (List.not_mem_nil hb).elim) rfl rfl

/-- Running the head of the queue. -/
theorem Covered.runBlock (h : s.Covered i) {b : Block} {q : List Block}
    (hq : s.queue = b :: q) : (({ s with queue := q } : Registry).runBlock b).Covered i := by
  have hlive : ∀ o ∈ b.object?, o < s.created := h.exist.queue b (hq ▸ List.mem_cons_self)
  cases b with
  | bind x n =>
    by_cases hid : s.idOf x = i
    · exact h.runBind hq hid
    · have hpop := h.pop hq fun o ho => by
        simp only [Block.object?, Option.mem_some] at ho
        exact ho ▸ hid
      exact hpop.undisturbed (.runBind _ n (hlive x rfl) hid)
  | unbind x =>
    by_cases hid : s.idOf x = i
    · exact h.runUnbind hq hid
    · have hpop := h.pop hq fun o ho => by
        simp only [Block.object?, Option.mem_some] at ho
        exact ho ▸ hid
      exact hpop.undisturbed (.runUnbind _ hid)
  | stopServers => exact (h.pop hq fun o ho => by cases ho).undisturbed (.stopServers _)
  | bindServers =>
    have hsame := runBindServers_same ({ s with queue := q } : Registry)
    exact (h.pop hq fun o ho => by cases ho).undisturbed (.of_same (p := []) hsame.created hsame.heap
      (sameBindings hsame.bindings) (by rw [List.append_nil]; exact hsame.queue)
      (fun b hb => (List.not_mem_nil hb).elim) hsame.instances hsame.instanceMap)

/-! ## A reload -/

/-- What the adoption loop has done once it has come through the objects `done`: those of
the id have the state and the links of the object that was registered. -/
structure Adopted (i : String) (s t : Registry) (done : List Oid) : Prop where
  created : s.created ≤ t.created
  id : ∀ x < s.created, t.idOf x = s.idOf x
  heap : ∀ x < s.created, x ∉ done → t.heap x = s.heap x
  bindings : t.bindings = s.bindings
  queue : t.queue = s.queue
  indexed : Indexed t
  unregistered : ∀ j w, t.registered j = some w → s.registered j = some w ∨ s.created ≤ w
  tracked : s.registered i = t.registered i ∨ (s.registered i = none ∧
    ∀ w ∈ t.registered i, t.stateOf w = .idle ∧ (t.heap w).link = fun _ => {})
  copied : ∀ inst ∈ done, s.idOf inst = i →
    (∃ w, s.registered i = some w ∧ t.stateOf inst = s.stateOf w ∧
      (t.heap inst).link = (s.heap w).link) ∨
    (s.registered i = none ∧ t.stateOf inst = .idle)

/-- Before its first round the loop has done nothing. -/
theorem Adopted.refl (hi : Indexed s) : Adopted i s s [] where
  created := le_rfl
  id _ _ := rfl
  heap _ _ _ := rfl
  bindings := rfl
  queue := rfl
  indexed := hi
  unregistered _ _ h := .inl h
  tracked := .inl rfl
  copied _ h := (List.not_mem_nil h).elim

/-- One round of the loop.
SOURCE: KlipperInstance.kt:252-268 -/
theorem Adopted.round {done : List Oid} (h : Adopted i s t done) (hs : Indexed s) {inst : Oid}
    (hinst : inst < s.created) (hnot : inst ∉ done) (hfresh : ∃ row, s.heap inst = { toRow := row })
    (hdone : ∀ o ∈ done, o < s.created)
    (hnew : ∀ o ∈ inst :: done, ∀ j, s.registered j ≠ some o) (db : Option (List Row)) :
    Adopted i s (adoptRow db t inst) (done ++ [inst]) := by
  obtain ⟨u, r, hlooked, hround⟩ := adoptRow_spec inst h.indexed db
  obtain ⟨hkeeps, hindexed⟩ := keepsRows_adoptRow h.indexed db inst
  have hinstt : inst < t.created := hinst.trans_le h.created
  set v := adoptRow db t inst
  obtain ⟨hbindings, hqueue, hreg, hheap⟩ : v.bindings = u.bindings ∧ v.queue = u.queue ∧
      (∀ j, v.registered j = u.registered j) ∧ ∀ x, x ≠ inst → v.heap x = u.heap x := by
    rw [hround]
    cases r with
    | none => exact ⟨rfl, rfl, fun _ => rfl, fun _ _ => rfl⟩
    | some was => exact ⟨u.adopt_bindings inst was, u.adopt_queue inst was,
        u.registered_adopt inst was, fun x hx => u.heap_adopt_of_ne was hx⟩
  have hne : ∀ x < s.created, x ≠ inst → v.heap x = t.heap x := fun x hx hxi =>
    (hheap x hxi).trans (hlooked.heap x (hx.trans_le h.created))
  have hunregistered : ∀ j w, v.registered j = some w → t.registered j = some w ∨
      t.created ≤ w := by
    intro j w hw
    rw [hreg] at hw
    rcases hlooked.registered j with hsame | ⟨-, x, hx, hge, -⟩
    · exact .inl (hsame ▸ hw)
    · rw [hw, Option.some.injEq] at hx
      exact .inr (hx ▸ hge)
  -- the registered objects keep what they have, and a new one is just loaded
  have hold : ∀ j x, t.registered j = some x → u.heap x = t.heap x ∧ v.heap x = t.heap x := by
    intro j x hx
    have hxi : x ≠ inst := by
      rintro rfl
      rcases h.unregistered j x hx with hx | hx
      · exact hnew x List.mem_cons_self j hx
      · exact absurd hinst (Nat.not_lt.mpr hx)
    have hxu := hlooked.heap x (h.indexed.registered hx).1
    exact ⟨hxu, (hheap x hxi).trans hxu⟩
  have hnewest : ∀ w, t.created ≤ w → w < u.created →
      u.stateOf w = .idle ∧ v.stateOf w = .idle ∧ (v.heap w).link = fun _ => {} := by
    intro w hge hlt
    obtain ⟨row, hrow⟩ := hlooked.fresh w hge hlt
    have hwi : w ≠ inst := by
      rintro rfl
      exact absurd hinstt (Nat.not_lt.mpr hge)
    unfold stateOf
    rw [hheap w hwi, hrow]
    exact ⟨rfl, rfl, rfl⟩
  have hnone : t.registered i = none → s.registered i = none := fun hn => by
    rcases h.tracked with heq | ⟨hnone, -⟩
    · rw [heq, hn]
    · exact hnone
  refine ⟨h.created.trans hkeeps.created, fun x hx => ?_, fun x hx hmem => ?_, ?_, ?_, hindexed,
    fun j w hw => ?_, ?_, fun o ho hoid => ?_⟩
  · exact (congrArg Row.id (hkeeps.row x (hx.trans_le h.created))).trans (h.id x hx)
  · rw [List.mem_append, List.mem_singleton, not_or] at hmem
    exact (hne x hx hmem.2).trans (h.heap x hx hmem.1)
  · rw [hbindings, hlooked.eq, h.bindings]
  · rw [hqueue, hlooked.eq, h.queue]
  · rcases hunregistered j w hw with hw | hge
    · exact h.unregistered j w hw
    · exact .inr (h.created.trans hge)
  · rcases hlooked.registered i with hsame | ⟨hn, x, hx, hge, hlt⟩
    · have hvt : v.registered i = t.registered i := (hreg i).trans hsame
      rcases h.tracked with heq | ⟨hsn, hidle⟩
      · exact .inl (heq.trans hvt.symm)
      · refine .inr ⟨hsn, fun w hw => ?_⟩
        rw [hvt] at hw
        rw [stateOf, (hold i w hw).2]
        exact hidle w hw
    · refine .inr ⟨hnone hn, fun w hw => ?_⟩
      rw [hreg, hx, Option.mem_some] at hw
      exact hw ▸ (hnewest x hge hlt).2
  · rcases List.mem_append.mp ho with ho | ho
    · have hoi : o ≠ inst := fun heq => hnot (heq ▸ ho)
      unfold stateOf
      rw [hne o (hdone o ho) hoi]
      exact h.copied o ho hoid
    · rw [List.mem_singleton.mp ho] at hoid ⊢
      have htid : t.idOf inst = i := (h.id inst hinst).trans hoid
      have hres := hlooked.result
      rw [htid] at hres
      cases r with
      | none =>
        right
        refine ⟨hnone (hres.elim Eq.symm And.left), ?_⟩
        obtain ⟨row, hrow⟩ := hfresh
        have hvinst : v.heap inst = s.heap inst := by
          rw [hround]
          exact (hlooked.heap inst hinstt).trans (h.heap inst hinst hnot)
        rw [stateOf, hvinst, hrow]
      | some was =>
        have hvstate : v.stateOf inst = u.stateOf was := by
          rw [hround]
          exact u.stateOf_adopt_self inst was
        have hvlink : (v.heap inst).link = (u.heap was).link := by
          rw [hround, Option.elim_some, heap_adopt_self]
        rw [hvstate, hvlink]
        rcases hres with hreg' | ⟨hn, w, hw, hge, hlt, -⟩
        · have hwas := (hold i was hreg'.symm).1
          rcases h.tracked with heq | ⟨hsn, hidle⟩
          · have hsw : s.registered i = some was := heq.trans hreg'.symm
            have hsame : t.heap was = s.heap was :=
              h.heap was (hs.registered hsw).1 fun hmem =>
                hnew was (List.mem_cons_of_mem _ hmem) i hsw
            refine .inl ⟨was, hsw, ?_, ?_⟩
            · rw [stateOf, hwas, hsame, stateOf]
            · rw [hwas, hsame]
          · refine .inr ⟨hsn, ?_⟩
            rw [stateOf, hwas]
            exact (hidle was hreg'.symm).1
        · rw [Option.some.injEq] at hw
          exact .inr ⟨hnone hn, hw ▸ (hnewest w hge hlt).1⟩

/-- **The adoption loop** over the objects that are left. -/
theorem foldl_adoptRow_adopted (hs : Indexed s) (db : Option (List Row)) (rest done : List Oid)
    (hlive : ∀ o ∈ done ++ rest, o < s.created) (hnodup : (done ++ rest).Nodup)
    (hfresh : ∀ o ∈ rest, ∃ row, s.heap o = { toRow := row })
    (hnew : ∀ o ∈ done ++ rest, ∀ j, s.registered j ≠ some o) (h : Adopted i s t done) :
    Adopted i s (rest.foldl (adoptRow db) t) (done ++ rest) := by
  induction rest generalizing t done with
  | nil =>
    rw [List.append_nil]
    exact h
  | cons inst rest ih =>
    have hsplit : done ++ inst :: rest = (done ++ [inst]) ++ rest := by simp
    have hinst : inst ∈ done ++ inst :: rest :=
      List.mem_append_right _ List.mem_cons_self
    have hnot : inst ∉ done := by
      rw [List.nodup_append] at hnodup
      exact fun hmem => hnodup.2.2 inst hmem inst List.mem_cons_self rfl
    have hround := h.round hs (hlive inst hinst) hnot (hfresh inst List.mem_cons_self)
      (fun o ho => hlive o (List.mem_append_left _ ho)) (fun o ho j => by
        rcases List.mem_cons.mp ho with rfl | ho
        · exact hnew o hinst j
        · exact hnew o (List.mem_append_left _ ho) j) db
    rw [hsplit] at hlive hnodup hnew ⊢
    exact ih (done ++ [inst]) hlive hnodup (fun o ho => hfresh o (List.mem_cons_of_mem _ ho))
      hnew hround

/-- The drop loop only stops objects whose id is not loaded. -/
theorem dropMissing_undisturbed (ids : List String) (keys : List Oid)
    (hlive : ∀ x ∈ keys, x < s.created) :
    Undisturbed i s (keys.foldl (dropMissing ids) s) ∧
      (keys.foldl (dropMissing ids) s).bindings = s.bindings ∧
      ∃ p, (keys.foldl (dropMissing ids) s).queue = s.queue ++ p ∧
        ∀ b ∈ p, b.bound? = none ∧ ∀ o ∈ b.object?, o < s.created ∧ s.idOf o ∉ ids := by
  induction keys generalizing s with
  | nil =>
    exact ⟨.refl i s, rfl, [], (List.append_nil _).symm, fun _ hb => (List.not_mem_nil hb).elim⟩
  | cons was keys ih =>
    have hwas := hlive was List.mem_cons_self
    rw [List.foldl_cons]
    by_cases hin : s.idOf was ∈ ids
    · have hround : dropMissing ids s was = s := if_pos hin
      rw [hround]
      exact ih fun x hx => hlive x (List.mem_cons_of_mem _ hx)
    · have hround : dropMissing ids s was = ({ s with slots := s.slots.erase was }).stop was :=
        if_neg hin
      rw [hround]
      set v : Registry := { s with slots := s.slots.erase was }
      have hstop : Undisturbed i s (v.stop was) :=
        (Undisturbed.slots s (s.slots.erase was)).trans (.stop v hwas)
      have hlocal := Local.stop (s := v) was
      have hbindings : (v.stop was).bindings = s.bindings := hlocal.bindings
      have hqueue : ∃ p, (v.stop was).queue = s.queue ++ p ∧
          ∀ b ∈ p, b.bound? = none ∧ ∀ o ∈ b.object?, o < s.created ∧ s.idOf o ∉ ids := by
        by_cases hst : v.stateOf was = .running ∨ v.stateOf was = .starting
        · refine ⟨[.unbind was], ?_, fun b hb => ?_⟩
          · rw [stop_eq v was hst, post_queue, notifyStateChanged_queue]
            simp only [notifyBlocks, List.append_nil]
            rfl
          · rw [List.mem_singleton.mp hb]
            refine ⟨rfl, fun o ho => ?_⟩
            simp only [Block.object?, Option.mem_some] at ho
            exact ho ▸ ⟨hwas, hin⟩
        · refine ⟨[], ?_, fun _ hb => (List.not_mem_nil hb).elim⟩
          rw [stop_eq_self v was hst, List.append_nil]
      obtain ⟨p, hp, hpids⟩ := hqueue
      obtain ⟨hrest, hrestb, q, hq, hqids⟩ := ih (s := v.stop was) fun x hx =>
        (hlive x (List.mem_cons_of_mem _ hx)).trans_le hstop.created
      refine ⟨hstop.trans hrest, hrestb.trans hbindings, p ++ q, ?_, fun b hb => ?_⟩
      · rw [hq, hp, List.append_assoc]
      · rcases List.mem_append.mp hb with hb | hb
        · exact hpids b hb
        · refine ⟨(hqids b hb).1, fun o ho => ?_⟩
          have hid : (v.stop was).idOf o = s.idOf o := hlocal.id o
          have hcreated : (v.stop was).created = s.created := hlocal.created
          rw [← hid, ← hcreated]
          exact (hqids b hb).2 o ho

/-- A start queues nothing about other ids. -/
theorem nothingQueued_start (hq : s.NothingQueued i) {x : Oid} (hid : s.idOf x ≠ i)
    (dirs : Dirs) : (s.start x dirs).1.NothingQueued i := by
  have hlocal := Local.start (s := s) x dirs
  intro b hb o ho hoid
  rw [hlocal.id] at hoid
  have hwork : b ∈ (s.start x dirs).1.work :=
    List.mem_filter.mpr ⟨hb, Option.isSome_iff_exists.mpr ⟨o, ho⟩⟩
  rcases hlocal.work b hwork with hold | ⟨y, hy, hyid⟩
  · exact hq b (List.mem_filter.mp hold).1 o ho hoid
  · have heq : y = o := Option.mem_unique hy ho
    subst heq
    exact hid ((Set.mem_singleton_iff.mp hyid).symm.trans hoid)

/-- **The autostart loop**: the object of the id is the registered one, and nothing about it
is queued when its turn comes.
SOURCE: KlipperInstance.kt:284-290 -/
theorem Covered.autostartAll (dirs : String → Dirs) (rest : List Oid) (h : s.Covered i)
    (hlive : ∀ o ∈ rest, o < s.created) (hnodup : (rest.map s.idOf).Nodup)
    (hmine : ∀ o ∈ rest, s.idOf o = i → s.registered i = some o ∧ s.NothingQueued i) :
    (Registry.autostartAll dirs s rest).1.Covered i := by
  induction rest generalizing s with
  | nil => exact h
  | cons inst rest ih =>
    rw [List.map_cons, List.nodup_cons] at hnodup
    have hinst := hlive inst List.mem_cons_self
    have hlater : ∀ o ∈ rest, o < s.created := fun o ho => hlive o (List.mem_cons_of_mem _ ho)
    have hstart := h.start hinst (fun hid _ => hmine inst List.mem_cons_self hid)
      (dirs (s.idOf inst))
    have hlocal := Local.start (s := s) inst (dirs (s.idOf inst))
    have hmine' : ∀ o ∈ rest, (s.start inst (dirs (s.idOf inst))).1.idOf o = i →
        (s.start inst (dirs (s.idOf inst))).1.registered i = some o ∧
          (s.start inst (dirs (s.idOf inst))).1.NothingQueued i := by
      intro o ho hoid
      rw [hlocal.id] at hoid
      obtain ⟨hreg, hq⟩ := hmine o (List.mem_cons_of_mem _ ho) hoid
      have hne : s.idOf inst ≠ i := fun hid => hnodup.1 (by
        rw [hid, ← hoid]
        exact List.mem_map_of_mem ho)
      have hu : Undisturbed i s _ := .start s hinst hne (dirs (s.idOf inst))
      exact ⟨hu.registered.trans hreg, nothingQueued_start hq hne _⟩
    have hnodup' : (rest.map (s.start inst (dirs (s.idOf inst))).1.idOf).Nodup := by
      rw [List.map_congr_left fun o _ => hlocal.id o]
      exact hnodup.2
    have hlive' : ∀ o ∈ rest, o < (s.start inst (dirs (s.idOf inst))).1.created :=
      fun o ho => hlocal.created ▸ hlater o ho
    unfold Registry.autostartAll
    split
    · split
      · next t heq =>
        rw [heq] at hstart hmine' hnodup' hlive'
        exact ih hstart hlive' hnodup' hmine'
      · next t heq =>
        rw [heq] at hstart
        exact hstart
    · exact ih h hlater hnodup.2 fun o ho => hmine o (List.mem_cons_of_mem _ ho)

/-- The autostart loop does not disturb an id that it does not start. -/
theorem Undisturbed.autostartAll (dirs : String → Dirs) (rest : List Oid)
    (hlive : ∀ o ∈ rest, o < s.created) (hother : ∀ o ∈ rest, s.idOf o ≠ i) :
    Undisturbed i s (Registry.autostartAll dirs s rest).1 := by
  induction rest generalizing s with
  | nil => exact .refl i s
  | cons inst rest ih =>
    have hinst := hlive inst List.mem_cons_self
    have hlater : ∀ o ∈ rest, o < s.created := fun o ho => hlive o (List.mem_cons_of_mem _ ho)
    have hstart : Undisturbed i s (s.start inst (dirs (s.idOf inst))).1 :=
      .start s hinst (hother inst List.mem_cons_self) _
    unfold Registry.autostartAll
    split
    · split
      · next t heq =>
        rw [heq] at hstart
        refine hstart.trans (ih (fun o ho => (hlater o ho).trans_le hstart.created)
          fun o ho => ?_)
        rw [hstart.id o (hlater o ho)]
        exact hother o (List.mem_cons_of_mem _ ho)
      · next t heq =>
        rw [heq] at hstart
        exact hstart
    · exact ih hlater fun o ho => hother o (List.mem_cons_of_mem _ ho)

/-- A reload that comes when nothing about the id is queued and, if it drops the id, when
its registered object is idle. An id that is not there and stays away is of no concern. -/
def CarefulReload (s : Registry) (i : String) (rows : List Row) : Prop :=
  i ∈ rows.map Row.id ∨ (s.registered i).isSome →
    s.NothingQueued i ∧ (i ∉ rows.map Row.id → ∀ w ∈ s.registered i, s.stateOf w = .idle)

instance (s : Registry) (i : String) (rows : List Row) : Decidable (s.CarefulReload i rows) :=
  inferInstanceAs (Decidable (_ → _))

/-- What a reload has made of the state when it replaces the lists, before autostart: the objects
`os` are those of the rows, and the one of the id has taken over what the registered object was. -/
structure Relisted (i : String) (s : Registry) (rows : List Row) (os : List Oid)
    (t : Registry) : Prop where
  existing : Existing t
  created : s.created ≤ t.created
  id : ∀ x < s.created, t.idOf x = s.idOf x
  live : ∀ o ∈ os, o < t.created
  ids : os.map t.idOf = rows.map Row.id
  registered : t.registered i = t.findById os i
  bindings : t.bindings = s.bindings
  kept : ∀ b ∈ s.queue, b ∈ t.queue
  queue : ∀ b ∈ t.queue, b ∈ s.queue ∨
    (b.bound? = none ∧ ∀ o ∈ b.object?, t.idOf o ∉ rows.map Row.id)
  held : ∀ y < s.created, s.idOf y = i → ∀ svc,
    ((t.heap y).link svc).connection = ((s.heap y).link svc).connection
  taken : ∀ w, s.registered i = some w → ∀ inst ∈ os, t.idOf inst = i →
    (∀ svc, ((t.heap inst).link svc).connection = ((s.heap w).link svc).connection) ∧
      (s.stateOf w ≠ .idle → t.stateOf inst ≠ .idle)

/-- Nothing refers to a loaded object yet, and it is as its row says. -/
theorem Loaded.unknown {rows : List Row} {os : List Oid} (h : Loaded s rows t os)
    (hi : Indexed s) {x : Oid} (hx : x ∈ os) :
    (∃ row, t.heap x = { toRow := row }) ∧ ∀ j, t.registered j ≠ some x := by
  obtain ⟨row, -, hrow⟩ := h.fresh hx
  refine ⟨⟨row, hrow⟩, fun j hj => ?_⟩
  rw [h.registered hi j] at hj
  exact absurd (hi.registered hj).1 (Nat.not_lt.mpr (h.range x hx).1)

/-- The adoption loop over the loaded objects. -/
theorem Loaded.adopted {rows : List Row} {os : List Oid} (h : Loaded s rows t os) (ha : Awake s)
    (hnodup : (rows.map Row.id).Nodup) (db : Option (List Row)) :
    Adopted i t (os.foldl (adoptRow db) t) os ∧ Awake (os.foldl (adoptRow db) t) := by
  have hlive : ∀ o ∈ os, o < t.created := fun o ho => (h.range o ho).2
  have htindexed : Indexed t := (h.looked ha.indexed "").indexed ha.indexed
  exact ⟨foldl_adoptRow_adopted htindexed db os [] hlive h.nodup
    (fun o ho => (h.unknown ha.indexed ho).1) (fun o ho => (h.unknown ha.indexed ho).2)
    (.refl htindexed), (foldl_adoptRow_key db os (h.awake ha) hlive (fun o ho => h.noKey ha ho)
    (fun o ho => h.idle ho) (by rw [h.ids]; exact hnodup)).1⟩

/-- **The three loops before autostart**, and the lists replaced.
SOURCE: KlipperInstance.kt:249-283 -/
theorem Loaded.relisted {rows : List Row} {os : List Oid} (h : Loaded s rows t os)
    (hs : Existing s) (ha : Awake s) (hnodup : (rows.map Row.id).Nodup)
    (db : Option (List Row)) (hash : Oid → Nat) :
    let s₁ := os.foldl (adoptRow db) t
    Relisted i s rows os (((s₁.slots.keys.insertionSort fun a b => hash a ≤ hash b).foldl
      (dropMissing (os.map s₁.idOf)) s₁).refresh os) := by
  intro s₁
  obtain ⟨hadopted, hawake⟩ := h.adopted (i := i) ha hnodup db
  have hlive : ∀ o ∈ os, o < t.created := fun o ho => (h.range o ho).2
  have hcreated₁ : s.created ≤ s₁.created := h.created.trans hadopted.created
  have hheap : ∀ x < s.created, s₁.heap x = s.heap x := fun x hx =>
    (hadopted.heap x (hx.trans_le h.created) fun hmem =>
      absurd hx (Nat.not_lt.mpr (h.range x hmem).1)).trans (h.heap x hx)
  have hid₁ : ∀ x < s.created, s₁.idOf x = s.idOf x := fun x hx => by
    rw [idOf, hheap x hx, idOf]
  have hids₁ : os.map s₁.idOf = rows.map Row.id := by
    rw [List.map_congr_left fun o ho => hadopted.id o (hlive o ho)]
    exact h.ids
  have hqueue₁ : s₁.queue = s.queue := by rw [hadopted.queue, h.eq]
  have hbindings₁ : s₁.bindings = s.bindings := by rw [hadopted.bindings, h.eq]
  have hexist₁ : Existing s₁ := by
    refine ⟨hadopted.indexed, fun b hb o ho => ?_, fun b hb => ?_⟩
    · rw [hqueue₁] at hb
      exact (hs.queue b hb o ho).trans_le hcreated₁
    · rw [hbindings₁] at hb
      exact (hs.bindings b hb).trans_le hcreated₁
  -- the drop loop
  obtain ⟨hdrop, hbindings₂, p, hqueue₂, hp⟩ := dropMissing_undisturbed (i := i) (s := s₁)
    (os.map s₁.idOf) (s₁.slots.keys.insertionSort fun a b => hash a ≤ hash b) fun x hx => by
      obtain ⟨k, hk⟩ := (mem_keys_iff_lookup x).mp ((List.mem_insertionSort _).mp hx)
      exact hawake.live x k hk
  set s₂ := (s₁.slots.keys.insertionSort fun a b => hash a ≤ hash b).foldl
    (dropMissing (os.map s₁.idOf)) s₁
  have hexist₂ := hdrop.existing hexist₁
  have hlive₁ : ∀ o ∈ os, o < s₁.created := fun o ho => (hlive o ho).trans_le hadopted.created
  have hlive₂ : ∀ o ∈ os, o < s₂.created := fun o ho => (hlive₁ o ho).trans_le hdrop.created
  have hqueue₃ : (s₂.refresh os).queue = s.queue ++ p ++ [.stopServers] := by
    have hrefresh : (s₂.refresh os).queue = s₂.queue ++ [.stopServers] := rfl
    rw [hrefresh, hqueue₂, hqueue₁]
  constructor
  case existing =>
    refine ⟨⟨hlive₂, fun _ _ hx => by cases hx⟩, fun b hb o ho => ?_, hexist₂.bindings⟩
    have hb : b ∈ s₂.queue ++ [.stopServers] := hb
    rcases List.mem_append.mp hb with hb | hb
    · exact hexist₂.queue b hb o ho
    · rw [List.mem_singleton.mp hb] at ho
      cases ho
  case created => exact hcreated₁.trans hdrop.created
  case id => exact fun x hx => (hdrop.id x (hx.trans_le hcreated₁)).trans (hid₁ x hx)
  case live => exact hlive₂
  case ids =>
    rw [← hids₁]
    exact List.map_congr_left fun o ho => hdrop.id o (hlive₁ o ho)
  case registered =>
    rw [registered_eq]
    rfl
  case bindings => exact hbindings₂.trans hbindings₁
  case kept =>
    intro b hb
    rw [hqueue₃]
    exact List.mem_append_left _ (List.mem_append_left _ hb)
  case queue =>
    intro b hb
    rw [hqueue₃, List.append_assoc, List.mem_append, List.mem_append, List.mem_singleton] at hb
    rcases hb with hb | hb | rfl
    · exact .inl hb
    · refine .inr ⟨(hp b hb).1, fun x hx => ?_⟩
      obtain ⟨hxlt, hne⟩ := (hp b hb).2 x hx
      rw [hids₁] at hne
      exact (hdrop.id x hxlt).symm ▸ hne
    · exact .inr ⟨rfl, fun x hx => by cases hx⟩
  case held =>
    intro y hy hyid svc
    have hsame := hdrop.held y (hy.trans_le hcreated₁) ((hid₁ y hy).trans hyid) svc
    rw [hheap y hy] at hsame
    exact hsame
  case taken =>
    intro w hw inst hinst hinstid
    have hinst₁ : s₁.idOf inst = i := (hdrop.id inst (hlive₁ inst hinst)).symm.trans hinstid
    have hinstt : t.idOf inst = i := (hadopted.id inst (hlive inst hinst)).symm.trans hinst₁
    have hwheap := h.heap w (hs.indexed.registered hw).1
    rcases hadopted.copied inst hinst hinstt with ⟨x, hx, hstate, hlink⟩ | ⟨hno, -⟩
    · rw [h.registered hs.indexed, hw, Option.some.injEq] at hx
      subst hx
      refine ⟨fun svc => ?_, fun hst => ?_⟩
      · have hsame := hdrop.held inst (hlive₁ inst hinst) hinst₁ svc
        rw [hlink, hwheap] at hsame
        exact hsame
      · refine hdrop.active inst (hlive₁ inst hinst) hinst₁ ?_
        rw [hstate, stateOf, hwheap]
        exact hst
    · rw [h.registered hs.indexed, hw] at hno
      cases hno

/-- No service is about to be bound for the id. -/
theorem Relisted.noBind {rows : List Row} {os : List Oid} (hr : Relisted i s rows os t)
    (h : s.Covered i) (hcareful : s.CarefulReload i rows) (x : Oid) (n : String)
    (hx : .bind x n ∈ t.queue) : t.idOf x ≠ i := by
  intro hxid
  rcases hr.queue _ hx with hx | ⟨hbound, -⟩
  · have hxs := (hr.id x (h.exist.queue _ hx x rfl)).symm.trans hxid
    have hreg := (h.bind x n hx hxs).1
    exact (hcareful (.inr (by rw [hreg]; rfl))).1 _ hx x rfl hxs
  · cases hbound

/-- Nothing is queued about an id that is loaded. -/
theorem Relisted.nothingQueued {rows : List Row} {os : List Oid} (hr : Relisted i s rows os t)
    (hs : Existing s) (hin : i ∈ rows.map Row.id) (hq : s.NothingQueued i) :
    t.NothingQueued i := by
  intro b hb x hx hxid
  rcases hr.queue b hb with hb | ⟨-, hne⟩
  · exact hq b hb x hx ((hr.id x (hs.queue b hb x hx)).symm.trans hxid)
  · exact hne x hx (hxid ▸ hin)

/-- The object of the id is the registered one. -/
theorem Relisted.registered_of_mem {rows : List Row} {os : List Oid}
    (hr : Relisted i s rows os t) (hnodup : (rows.map Row.id).Nodup) {x : Oid} (hx : x ∈ os)
    (hid : t.idOf x = i) : t.registered i = some x := by
  rw [hr.registered, ← hid]
  exact findById_of_mem (hr.ids ▸ hnodup) hx

/-- **The new object takes the bindings over**, so the id stays covered. -/
theorem Relisted.covered {rows : List Row} {os : List Oid} (hr : Relisted i s rows os t)
    (h : s.Covered i) (hnodup : (rows.map Row.id).Nodup) (hcareful : s.CarefulReload i rows) :
    t.Covered i := by
  have hnobind := hr.noBind h hcareful
  constructor
  case exist => exact hr.existing
  case bound =>
    intro b hb hbid
    rw [hr.bindings] at hb
    have hbs := (hr.id _ (h.exist.bindings b hb)).symm.trans hbid
    obtain ⟨y, hy, hyid, hheld, hcover⟩ := h.bound b hb hbs
    unfold HoldsBinding at hheld ⊢
    rcases hcover with hunbind | ⟨hreg, hst⟩
    · exact ⟨y, hy.trans_le hr.created, (hr.id y hy).trans hyid,
        (hr.held y hy hyid b.svc).trans hheld, .inl (hr.kept _ hunbind)⟩
    · have hin : i ∈ rows.map Row.id := by
        by_contra hout
        exact hst ((hcareful (.inr (by rw [hreg]; rfl))).2 hout y hreg)
      rw [← hr.ids] at hin
      obtain ⟨inst, hinst, hinstid⟩ := List.mem_map.mp hin
      obtain ⟨hlink, hactive⟩ := hr.taken y hreg inst hinst hinstid
      exact ⟨inst, hr.live inst hinst, hinstid, (hlink b.svc).trans hheld,
        .inr ⟨hr.registered_of_mem hnodup hinst hinstid, hactive hst⟩⟩
  case bind => exact fun x n hx hxid => absurd hxid (hnobind x n hx)
  case first =>
    intro b hb
    have hb := List.mem_filter.mp (List.mem_of_mem_tail hb)
    obtain ⟨o, ho, hoid⟩ := (Option.any_eq_true _ _).mp hb.2
    cases b with
    | bind x n =>
      simp only [Block.object?, Option.some.injEq] at ho
      exact absurd (ho ▸ of_decide_eq_true hoid) (hnobind x n hb.1)
    | unbind x => rfl
    | stopServers => rfl
    | bindServers => rfl

/-- **A careful reload** keeps the id covered. One that drops the id leaves it unknown, and
binds nothing for it.
SOURCE: KlipperInstance.kt:249-291 -/
theorem Covered.reload (h : s.Covered i) (ha : Awake s) {rows : List Row}
    (hnodup : (rows.map Row.id).Nodup) (hcareful : s.CarefulReload i rows)
    (db : Option (List Row)) (hash : Oid → Nat) (dirs : String → Dirs) :
    let t := ((s.loadRows rows).1.onInstancesLoadedFromDB (s.loadRows rows).2 db hash dirs).1
    t.Covered i ∧ (i ∉ rows.map Row.id →
      t.registered i = none ∧ (s.NothingBound i → t.NothingBound i)) := by
  intro t
  set os := (s.loadRows rows).2
  have hr := (loadRows_spec s rows).relisted (i := i) h.exist ha hnodup db hash
  set s₁ := os.foldl (adoptRow db) (s.loadRows rows).1
  set s₃ := ((s₁.slots.keys.insertionSort fun a b => hash a ≤ hash b).foldl
    (dropMissing (os.map s₁.idOf)) s₁).refresh os
  have hrun : t = (Registry.autostartAll dirs s₃ os).1 := rfl
  have hcovered : s₃.Covered i := hr.covered h hnodup hcareful
  refine ⟨?_, fun hout => ?_⟩
  · rw [hrun]
    refine hcovered.autostartAll dirs os hr.live (hr.ids ▸ hnodup) fun o ho hoid =>
      ⟨hr.registered_of_mem hnodup ho hoid, ?_⟩
    have hin : i ∈ rows.map Row.id := by
      rw [← hr.ids, ← hoid]
      exact List.mem_map_of_mem ho
    exact hr.nothingQueued h.exist hin (hcareful (.inl hin)).1
  · have hother : ∀ o ∈ os, s₃.idOf o ≠ i := fun o ho hoid => hout (by
      rw [← hr.ids, ← hoid]
      exact List.mem_map_of_mem ho)
    have hauto : Undisturbed i s₃ t := hrun ▸ .autostartAll dirs os hr.live hother
    refine ⟨hauto.registered.trans ?_, fun hno => hauto.nothingBound hcovered.exist ?_⟩
    · rw [hr.registered]
      refine List.find?_eq_none.mpr fun o ho => ?_
      rw [decide_eq_true_eq]
      exact hother o ho
    · intro b hb hbid
      rw [hr.bindings] at hb
      exact hno b hb ((hr.id _ (h.exist.bindings b hb)).symm.trans hbid)

/-! ## The other steps of the registry -/

/-- No service of the id is lost, and its registered object is started when nothing about
the id is queued. -/
def CarefulAction (i : String) (s : Registry) : Action → Prop
  | .start x _ => s.idOf x = i → s.stateOf x = .idle → s.registered i = some x ∧ s.NothingQueued i
  | .onServiceDisconnected c => ∀ b ∈ s.bindingOf c, s.idOf b.owner ≠ i
  | _ => True

instance (i : String) (s : Registry) (a : Action) : Decidable (CarefulAction i s a) :=
  match a with
  | .start _ _ => inferInstanceAs (Decidable (_ → _))
  | .onServiceDisconnected c =>
    inferInstanceAs (Decidable (∀ b ∈ s.bindingOf c, s.idOf b.owner ≠ i))
  | .stop _ => inferInstanceAs (Decidable True)
  | .onInstancesLoadedFromDB _ _ _ _ => inferInstanceAs (Decidable True)
  | .runPosted => inferInstanceAs (Decidable True)
  | .onServiceConnected _ => inferInstanceAs (Decidable True)

/-- What a step keeps of an id that is not known: it stays unknown, and nothing is bound
for it. -/
def KeepsUnknown (i : String) (s t : Registry) : Prop :=
  s.registered i = none → t.registered i = none ∧ (s.NothingBound i → t.NothingBound i)

/-- A step that does not disturb an unknown id keeps it unknown. -/
theorem Undisturbed.keepsUnknown (hu : Undisturbed i s t) (hs : Existing s) :
    KeepsUnknown i s t :=
  fun hnone => ⟨hu.registered.trans hnone, hu.nothingBound hs⟩

/-- A posted block keeps an unknown id unknown. -/
theorem Covered.runBlock_unknown (h : s.Covered i) {b : Block} {q : List Block}
    (hq : s.queue = b :: q) : KeepsUnknown i s (({ s with queue := q } : Registry).runBlock b) := by
  intro hnone
  have hhead : b ∈ s.queue := hq ▸ List.mem_cons_self
  have hlive : ∀ o ∈ b.object?, o < s.created := h.exist.queue b hhead
  set p : Registry := { s with queue := q } with hp
  have hpexist : Existing p := ⟨⟨h.exist.indexed.instances, h.exist.indexed.instanceMap⟩,
    fun c hc => h.exist.queue c (hq ▸ List.mem_cons_of_mem b hc), h.exist.bindings⟩
  have hpnone : p.registered i = none :=
    (registered_congr (s := s) (t := p) rfl rfl (fun _ _ => rfl) i).trans hnone
  have hdone : ∀ {t : Registry}, Undisturbed i p t →
      t.registered i = none ∧ (s.NothingBound i → t.NothingBound i) :=
    fun hu => hu.keepsUnknown hpexist hpnone
  cases b with
  | bind x n =>
    have hid : p.idOf x ≠ i := fun hid => by
      have hreg := (h.bind x n hhead hid).1
      rw [hnone] at hreg
      cases hreg
    exact hdone (.runBind p n (hlive x rfl) hid)
  | unbind x =>
    obtain ⟨hrel, -, hbindings⟩ := runUnbind_spec (s := p) (o := x)
    refine ⟨(registered_congr hrel.instanceMap hrel.instances (fun y _ => hrel.idOf y) i).trans
      hpnone, fun hno b hb hid => ?_⟩
    replace hb : b ∈ (p.runUnbind x).bindings := hb
    rw [hbindings] at hb
    exact hno b (List.mem_filter.mp hb).1 ((hrel.idOf _).symm.trans hid)
  | stopServers => exact hdone (.stopServers p)
  | bindServers =>
    have hsame := runBindServers_same p
    exact hdone (.of_same (p := []) hsame.created hsame.heap (sameBindings hsame.bindings)
      (by rw [List.append_nil]; exact hsame.queue) (fun b hb => (List.not_mem_nil hb).elim)
      hsame.instances hsame.instanceMap)

/-- **One careful step** other than a reload. -/
theorem Covered.step {a : Action} (h : s.Covered i) (ha : Store.NoReload a)
    (hg : CarefulAction i s a) (hs : Registry.step s a = some t) :
    t.Covered i ∧ KeepsUnknown i s t := by
  have hdone : Undisturbed i s t → t.Covered i ∧ KeepsUnknown i s t :=
    fun hu => ⟨h.undisturbed hu, hu.keepsUnknown h.exist⟩
  unfold Registry.step at hs
  split at hs
  · cases hs
  cases a with
  | start x dirs =>
    simp only [Option.ite_none_right_eq_some, Option.some.injEq] at hs
    obtain ⟨hlt, rfl⟩ := hs
    refine ⟨h.start hlt hg dirs, fun hnone => ?_⟩
    rcases start_undisturbed (i := i) s hlt dirs with hu | ⟨u, -, -, -, -, -, hidle⟩
    · exact hu.keepsUnknown h.exist hnone
    · have hid : s.idOf x ≠ i := fun hid => by
        have hreg := (hg hid hidle).1
        rw [hnone] at hreg
        cases hreg
      exact (Undisturbed.start s hlt hid dirs).keepsUnknown h.exist hnone
  | stop x =>
    simp only [Option.ite_none_right_eq_some, Option.some.injEq] at hs
    obtain ⟨hlt, rfl⟩ := hs
    exact hdone (.stop s hlt)
  | onInstancesLoadedFromDB rows db hash dirs => exact ha.elim
  | runPosted =>
    cases hq : s.queue with
    | nil => simp [hq] at hs
    | cons b q =>
      simp only [hq, Option.some.injEq] at hs
      subst hs
      exact ⟨h.runBlock hq, h.runBlock_unknown hq⟩
  | onServiceConnected c =>
    obtain ⟨b, -, rfl⟩ := Option.map_eq_some_iff.mp hs
    exact hdone (.onServiceConnected s b)
  | onServiceDisconnected c =>
    obtain ⟨b, hb, rfl⟩ := Option.map_eq_some_iff.mp hs
    exact hdone (.onServiceDisconnected s (hg b hb))

end Registry

end Cream.Model
