import Cream.Model.KlipperInstance
import Mathlib.Data.List.Find

/-!
# What each registry operation does

One group of lemmas for each operation of `Cream.Model.Registry`: the fields it leaves
alone and the new value of those it assigns. The later modules reason about the
operations through these lemmas only.
-/

set_option autoImplicit false

namespace Cream.Model

namespace Registry

variable (s : Registry) (o x : Oid)

/-! ## Assignments -/

/-- Assigning to fields other than the id keeps every id. -/
theorem idOf_modify (f : KlipperInstance → KlipperInstance) (hf : ∀ i, (f i).id = i.id) :
    (s.modify o f).idOf x = s.idOf x := by
  unfold idOf
  rw [modify_heap]
  by_cases hx : x = o
  · subst hx
    rw [Function.update_self, hf]
  · rw [Function.update_of_ne hx]

/-- Removing keys one by one removes exactly the listed keys that satisfy the test. -/
theorem lookup_foldl_erase (p : Oid → Prop) [DecidablePred p] (l : List Oid)
    (m : AList fun _ : Oid => Int) :
    (l.foldl (fun m k => if p k then m.erase k else m) m).lookup x =
      if x ∈ l ∧ p x then none else m.lookup x := by
  induction l generalizing m with
  | nil => simp
  | cons k l ih =>
    rw [List.foldl_cons, ih]
    by_cases hk : p k
    · by_cases hx : x = k
      · subst hx
        simp [hk]
      · simp [hk, hx, AList.lookup_erase_ne hx]
    · by_cases hx : x = k
      · subst hx
        simp [hk]
      · simp [hk, hx]

/-- The keys are the objects with an entry. -/
theorem mem_keys_iff_lookup {m : AList fun _ : Oid => Int} :
    x ∈ m.keys ↔ ∃ k, m.lookup x = some k := by
  rw [← AList.mem_keys, ← AList.lookup_isSome, Option.isSome_iff_exists]

/-- Leaving the slots removes every key that carries the object's id.
SOURCE: KlipperInstance.kt:188-193 -/
theorem lookup_removeSlotsOf :
    (s.removeSlotsOf o).slots.lookup x =
      if s.idOf x = s.idOf o then none else s.slots.lookup x := by
  unfold removeSlotsOf
  rw [lookup_foldl_erase x (fun entry => s.idOf entry = s.idOf o)]
  by_cases hx : x = o
  · subst hx
    simp
  · by_cases hid : s.idOf x = s.idOf o
    · rw [if_pos hid]
      split
      · rfl
      · next hmem =>
        exact AList.lookup_eq_none.mpr fun h => hmem ⟨AList.mem_keys.mp h, hid⟩
    · simp [hid, AList.lookup_erase_ne hx]

/-! ## `notifyStateChanged` and `stop` -/

/-- The block a state change posts. -/
def notifyBlocks : State → List Block
  | .idle => [.stopServers]
  | .running => [.bindServers]
  | _ => []

section notifyStateChanged

variable (st : State)

/-- An announcement sets the state of its object. -/
@[simp] theorem notifyStateChanged_heap :
    (s.notifyStateChanged o st).heap =
      Function.update s.heap o { s.heap o with state := st } := by
  cases st <;> rfl

/-- It creates no object. -/
@[simp] theorem notifyStateChanged_created :
    (s.notifyStateChanged o st).created = s.created := by
  cases st <;> rfl

/-- It leaves the list of the instances. -/
@[simp] theorem notifyStateChanged_instances :
    (s.notifyStateChanged o st).instances = s.instances := by
  cases st <;> rfl

/-- It leaves the map from the ids. -/
@[simp] theorem notifyStateChanged_instanceMap :
    (s.notifyStateChanged o st).instanceMap = s.instanceMap := by
  cases st <;> rfl

/-- It binds nothing. -/
@[simp] theorem notifyStateChanged_bindings :
    (s.notifyStateChanged o st).bindings = s.bindings := by
  cases st <;> rfl

/-- It makes no connection. -/
@[simp] theorem notifyStateChanged_nextConn :
    (s.notifyStateChanged o st).nextConn = s.nextConn := by
  cases st <;> rfl

/-- It does not crash the app. -/
@[simp] theorem notifyStateChanged_crashed :
    (s.notifyStateChanged o st).crashed = s.crashed := by
  cases st <;> rfl

/-- It posts the blocks for its state. -/
@[simp] theorem notifyStateChanged_queue :
    (s.notifyStateChanged o st).queue = s.queue ++ notifyBlocks st := by
  cases st <;> simp [notifyStateChanged, notifyBlocks, removeSlotsOf]

/-- It changes no id. -/
@[simp] theorem idOf_notifyStateChanged :
    (s.notifyStateChanged o st).idOf x = s.idOf x := by
  unfold idOf
  rw [notifyStateChanged_heap]
  by_cases hx : x = o
  · subst hx
    rw [Function.update_self]
  · rw [Function.update_of_ne hx]

/-- It changes the state of its object only. -/
theorem stateOf_notifyStateChanged :
    (s.notifyStateChanged o st).stateOf x = if x = o then st else s.stateOf x := by
  unfold stateOf
  rw [notifyStateChanged_heap]
  by_cases hx : x = o
  · subst hx
    simp
  · simp [hx]

/-- Only becoming idle touches the slots, and then it removes every key with that id.
SOURCE: KlipperInstance.kt:187-194 -/
theorem lookup_notifyStateChanged :
    (s.notifyStateChanged o st).slots.lookup x =
      if st = .idle ∧ s.idOf x = s.idOf o then none else s.slots.lookup x := by
  cases st with
  | idle =>
    have hid : ∀ (n : List Notification) (e : Event) (y : Oid),
        (({ s with notified := n }.modify o fun i => { i with state := .idle }).fire e).idOf y =
          s.idOf y :=
      fun n e y => idOf_modify { s with notified := n } o y
        (fun i => { i with state := .idle }) fun _ => rfl
    simp only [notifyStateChanged, post_slots, lookup_removeSlotsOf, hid, true_and]
    rfl
  | starting => simp [notifyStateChanged]
  | running => simp [notifyStateChanged]
  | stopping => simp [notifyStateChanged]

end notifyStateChanged

/-- `stop` does nothing to an object that is neither running nor starting. -/
theorem stop_eq_self (h : ¬(s.stateOf o = .running ∨ s.stateOf o = .starting)) :
    s.stop o = s := by
  unfold stop
  rw [if_pos (by tauto)]

/-- `stop` of a running or starting object publishes `STOPPING` and posts its block.
SOURCE: KlipperInstance.kt:135-140 -/
theorem stop_eq (h : s.stateOf o = .running ∨ s.stateOf o = .starting) :
    s.stop o = (s.notifyStateChanged o .stopping).post (.unbind o) := by
  unfold stop
  rw [if_neg (by tauto)]

/-! ## `start` -/

/-- The slot `start` picks is one of the ten and not in use. -/
theorem pickSlot_some {slots : AList fun _ : Oid => Int} {k : Int}
    (h : pickSlot slots = some k) :
    HasService k ∧ ∀ y, slots.lookup y ≠ some k := by
  have hfree : HasService k ∧ k ∉ slots.entries.map Sigma.snd := by
    unfold pickSlot at h
    simp only at h
    split at h
    · next hempty =>
      rw [List.isEmpty_iff] at hempty
      cases h
      exact ⟨by decide, by simp [hempty]⟩
    · split at h
      · next hlt =>
        rw [Option.some.injEq] at h
        cases hf : ((List.range SLOTS_COUNT).map Int.ofNat).find?
            (fun i => !(slots.entries.map Sigma.snd).contains i) with
        | some i =>
          rw [hf, Option.getD_some] at h
          subst h
          have hmem := List.mem_of_find?_eq_some hf
          have hsat := List.find?_some hf
          obtain ⟨n, hn, rfl⟩ := List.mem_map.mp hmem
          rw [List.mem_range] at hn
          refine ⟨⟨Int.natCast_nonneg n, Int.ofNat_lt.mpr hn⟩, ?_⟩
          simpa using hsat
        | none =>
          -- ten numbers cannot all be among fewer than ten values
          exfalso
          rw [List.find?_eq_none] at hf
          have hsub : (List.range SLOTS_COUNT).map Int.ofNat ⊆ slots.entries.map Sigma.snd := by
            intro i hi
            simpa using hf i hi
          have hnodup : ((List.range SLOTS_COUNT).map Int.ofNat).Nodup :=
            List.nodup_range.map fun a b hab => Int.ofNat.inj hab
          have hle := (List.subperm_of_subset hnodup hsub).length_le
          simp only [List.length_map, List.length_range] at hle hlt
          omega
      · cases h
  refine ⟨hfree.1, fun y hy => hfree.2 ?_⟩
  exact List.mem_map.mpr ⟨⟨y, k⟩, AList.mem_lookup_iff.mp hy, rfl⟩

/-- Everything `start` can do: nothing, when the object is not idle; give up through
`stop`, when a directory is missing; leave the object starting without a slot, when there
is none; or take a free slot and post the block that binds.
SOURCE: KlipperInstance.kt:46-133 -/
theorem start_cases (dirs : Dirs) :
    (s.stateOf o ≠ .idle ∧ s.start o dirs = (s, .returned)) ∨
    (s.stateOf o = .idle ∧ ¬(dirs.directory ∧ dirs.publicDirectory) ∧
      s.start o dirs = ((s.notifyStateChanged o .starting).stop o, .returned)) ∨
    (s.stateOf o = .idle ∧ dirs.directory ∧ dirs.publicDirectory ∧ pickSlot s.slots = none ∧
      s.start o dirs =
        ((s.notifyStateChanged o .starting).modify o fun i => { i with slot := -1 },
          .threw)) ∨
    (∃ k, s.stateOf o = .idle ∧ dirs.directory ∧ dirs.publicDirectory ∧
      pickSlot s.slots = some k ∧
      s.start o dirs =
        ({ (s.notifyStateChanged o .starting).modify o fun i => { i with slot := k } with
            slots := s.slots.insert o k }.post (.bind o (s.idOf o)), .returned)) := by
  have hslots : (s.notifyStateChanged o .starting).slots = s.slots := rfl
  by_cases hidle : s.stateOf o = .idle
  · by_cases hdir : dirs.directory = true
    · by_cases hpub : dirs.publicDirectory = true
      · cases hk : pickSlot s.slots with
        | none =>
          right; right; left
          simp [start, hidle, hdir, hpub, hslots, hk]
        | some k =>
          right; right; right
          have hid := idOf_modify (s.notifyStateChanged o .starting) o o
            (fun i => { i with slot := k }) fun _ => rfl
          rw [idOf_notifyStateChanged] at hid
          refine ⟨k, hidle, hdir, hpub, rfl, ?_⟩
          simp only [start, hidle, hdir, hpub, hslots, hk, ne_eq, not_true_eq_false, if_false,
            Bool.not_true, Bool.false_eq_true]
          rw [show ∀ m, ({ (s.notifyStateChanged o .starting).modify o
            (fun i => { i with slot := k }) with slots := m } : Registry).idOf o = s.idOf o from
            fun _ => hid]
          rfl
      · right; left
        simp [start, hidle, hdir, hpub]
    · right; left
      simp [start, hidle, hdir]
  · left
    simp [start, hidle]

/-! ## The block of `stop` -/

/-- How a step may change the registry on the way to releasing an object: only the state
and the links of the object, the keys with its id (all gone once it is idle), and blocks
that look for idle servers. -/
structure Releasing (s : Registry) (o : Oid) (u : Registry) : Prop where
  heap_ne : ∀ x, x ≠ o → u.heap x = s.heap x
  heap_self : ∃ st link, u.heap o = { s.heap o with state := st, link := link }
  state : (u.stateOf o = s.stateOf o ∧ ∀ x, u.slots.lookup x = s.slots.lookup x) ∨
    (u.stateOf o = .idle ∧ ∀ x, u.slots.lookup x =
      if s.idOf x = s.idOf o then none else s.slots.lookup x)
  queue : ∃ n, u.queue = s.queue ++ List.replicate n .stopServers
  created : u.created = s.created
  instances : u.instances = s.instances
  instanceMap : u.instanceMap = s.instanceMap
  nextConn : u.nextConn = s.nextConn
  crashed : u.crashed = s.crashed

variable {s o}

/-- No id changes on the way. -/
theorem Releasing.idOf {u : Registry} (h : Releasing s o u) (x : Oid) :
    u.idOf x = s.idOf x := by
  unfold Registry.idOf
  by_cases hx : x = o
  · subst hx
    obtain ⟨st, link, he⟩ := h.heap_self
    rw [he]
  · rw [h.heap_ne x hx]

/-- Without a step nothing is released. -/
theorem Releasing.refl : Releasing s o s where
  heap_ne _ _ := rfl
  heap_self := ⟨_, _, rfl⟩
  state := .inl ⟨rfl, fun _ => rfl⟩
  queue := ⟨0, by simp⟩
  created := rfl
  instances := rfl
  instanceMap := rfl
  nextConn := rfl
  crashed := rfl

/-- Ending a binding is one of the changes a stop block makes. -/
theorem Releasing.unbindService {u : Registry} (h : Releasing s o u) (c : Conn) :
    Releasing s o (u.unbindService c) :=
  { h with }

/-- Assigning to the links of the object is one of the changes a stop block makes. -/
theorem Releasing.modify_link {u : Registry} (h : Releasing s o u)
    (f : (Svc → Link) → (Svc → Link)) :
    Releasing s o (u.modify o fun i => { i with link := f i.link }) where
  heap_ne x hx := by
    rw [modify_heap, Function.update_of_ne hx]
    exact h.heap_ne x hx
  heap_self := by
    obtain ⟨st, link, he⟩ := h.heap_self
    refine ⟨st, f link, ?_⟩
    rw [modify_heap, Function.update_self, he]
  state := by
    have hst : (u.modify o fun i => { i with link := f i.link }).stateOf o = u.stateOf o := by
      unfold stateOf
      rw [modify_heap, Function.update_self]
    rw [hst]
    exact h.state
  queue := h.queue
  created := h.created
  instances := h.instances
  instanceMap := h.instanceMap
  nextConn := h.nextConn
  crashed := h.crashed

/-- Becoming idle is one of the changes a stop block makes. -/
theorem Releasing.notify_idle {u : Registry} (h : Releasing s o u) :
    Releasing s o (u.notifyStateChanged o .idle) where
  heap_ne x hx := by
    rw [notifyStateChanged_heap, Function.update_of_ne hx]
    exact h.heap_ne x hx
  heap_self := by
    obtain ⟨st, link, he⟩ := h.heap_self
    refine ⟨.idle, link, ?_⟩
    rw [notifyStateChanged_heap, Function.update_self, he]
  state := by
    right
    refine ⟨by simp [stateOf_notifyStateChanged], fun x => ?_⟩
    rw [lookup_notifyStateChanged]
    simp only [true_and, h.idOf]
    split
    · rfl
    · next hid =>
      rcases h.state with ⟨-, hl⟩ | ⟨-, hl⟩
      · rw [hl]
      · rw [hl, if_neg hid]
  queue := by
    obtain ⟨n, hn⟩ := h.queue
    refine ⟨n + 1, ?_⟩
    rw [notifyStateChanged_queue, hn, List.append_assoc, List.replicate_succ']
    rfl
  created := by rw [notifyStateChanged_created, h.created]
  instances := by rw [notifyStateChanged_instances, h.instances]
  instanceMap := by rw [notifyStateChanged_instanceMap, h.instanceMap]
  nextConn := by rw [notifyStateChanged_nextConn, h.nextConn]
  crashed := by rw [notifyStateChanged_crashed, h.crashed]

/-- `onKlippyUnbound` and `onMoonrakerUnbound` inside the block. -/
theorem Releasing.onUnbound {u : Registry} (h : Releasing s o u) (svc : Svc) :
    Releasing s o (onUnbound svc u o) := by
  have hlink := h.modify_link fun link =>
    Function.update link svc { link svc with connection := none, connected := false }
  unfold Registry.onUnbound
  simp only
  split
  · exact hlink
  · exact hlink.notify_idle

/-- One more link of the object is released. -/
theorem Releasing.releaseLink {u : Registry} (h : Releasing s o u) (svc : Svc) :
    Releasing s o (releaseLink svc u o) := by
  unfold Registry.releaseLink
  split
  · exact h
  · exact (h.unbindService _).onUnbound svc

variable (s o)

/-- That a service is gone ends no binding. -/
@[simp] theorem onUnbound_bindings (svc : Svc) :
    (onUnbound svc s o).bindings = s.bindings := by
  unfold onUnbound modifyLink
  simp only
  split <;> simp

/-- The two callbacks' test: without the other service the object is idle.
SOURCE: KlipperInstance.kt:166-180 -/
theorem onUnbound_eq (svc : Svc) :
    onUnbound svc s o =
      if ((s.heap o).link svc.other).connected then
        s.modifyLink o svc fun l => { l with connection := none, connected := false }
      else
        (s.modifyLink o svc fun l =>
          { l with connection := none, connected := false }).notifyStateChanged o .idle := by
  have hlink : (((s.modifyLink o svc fun l =>
      { l with connection := none, connected := false }).heap o).link svc.other) =
        (s.heap o).link svc.other := by
    cases svc <;> simp [modifyLink, Svc.other]
  unfold onUnbound
  simp only [hlink]

/-- The object is idle when the other service is not connected either. -/
theorem onUnbound_idle (svc : Svc) (h : ((s.heap o).link svc.other).connected = false) :
    (onUnbound svc s o).stateOf o = .idle := by
  rw [onUnbound_eq, h]
  simp [stateOf_notifyStateChanged]

/-- Forgetting one service leaves the link of the other alone. -/
theorem onUnbound_link_ne {svc svc' : Svc} (h : svc' ≠ svc) :
    ((onUnbound svc s o).heap o).link svc' = ((s.heap o).link svc') := by
  unfold onUnbound modifyLink
  simp only
  split <;> simp [h]

/-- The block ends the binding of the connection its object still holds, if any. -/
theorem releaseLink_bindings (svc : Svc) :
    (releaseLink svc s o).bindings =
      s.bindings.filter fun b => ((s.heap o).link svc).connection ≠ some b.conn := by
  unfold releaseLink
  cases hc : ((s.heap o).link svc).connection with
  | none => simp
  | some c =>
    rw [onUnbound_bindings, unbindService_bindings]
    refine List.filter_congr fun b _ => ?_
    simp [eq_comm]

/-- Releasing one link leaves the other. -/
theorem releaseLink_link_ne {svc svc' : Svc} (h : svc' ≠ svc) :
    ((releaseLink svc s o).heap o).link svc' = ((s.heap o).link svc') := by
  unfold releaseLink
  split
  · rfl
  · exact onUnbound_link_ne _ o h

/-- The connections an object holds. -/
def Holds (s : Registry) (o : Oid) (c : Conn) : Prop :=
  ∃ svc, ((s.heap o).link svc).connection = some c

instance (c : Conn) : Decidable (s.Holds o c) :=
  decidable_of_iff (((s.heap o).link .klippy).connection = some c ∨
      ((s.heap o).link .moonraker).connection = some c)
    ⟨fun h => h.elim (fun h => ⟨.klippy, h⟩) fun h => ⟨.moonraker, h⟩, fun ⟨svc, h⟩ => by
      cases svc
      · exact .inl h
      · exact .inr h⟩

variable {s o}

/-- The registry when the block of `stop` comes to its last test. -/
def released (s : Registry) (o : Oid) : Registry :=
  (releaseLink .moonraker (releaseLink .klippy s o) o).modify o
    fun i => { i with link := fun _ => {} }

/-- The block of `stop` releases both links, and announces that a stopping object is idle. -/
theorem runUnbind_eq :
    s.runUnbind o = if (released s o).stateOf o = .stopping then
      (released s o).notifyStateChanged o .idle else released s o :=
  rfl

/-- Both links are released one after the other. -/
theorem released_releasing : Releasing s o (released s o) :=
  ((Releasing.refl.releaseLink .klippy).releaseLink .moonraker).modify_link fun _ _ => {}

/-- The bindings the object held have ended. -/
theorem released_bindings :
    (released s o).bindings = s.bindings.filter fun b => ¬s.Holds o b.conn := by
  unfold released
  rw [modify_bindings, releaseLink_bindings, releaseLink_bindings,
    releaseLink_link_ne _ _ (by decide), List.filter_filter]
  refine List.filter_congr fun b _ => ?_
  rw [Bool.eq_iff_iff]
  simp only [Bool.and_eq_true, decide_eq_true_eq]
  constructor
  · rintro ⟨hm, hk⟩ ⟨svc, hsvc⟩
    cases svc with
    | klippy => exact hk hsvc
    | moonraker => exact hm hsvc
  · intro hno
    exact ⟨fun hm => hno ⟨_, hm⟩, fun hk => hno ⟨_, hk⟩⟩

/-- An object that holds both its connections is idle once both are released. -/
theorem released_idle (h : ∀ svc, ((s.heap o).link svc).connection.isSome) :
    (released s o).stateOf o = .idle := by
  obtain ⟨k, hk⟩ := Option.isSome_iff_exists.mp (h .klippy)
  obtain ⟨m, hm⟩ := Option.isSome_iff_exists.mp (h .moonraker)
  set t := releaseLink .klippy s o with ht
  have hmt : ((t.heap o).link .moonraker).connection = some m := by
    rw [ht, releaseLink_link_ne _ _ (by decide), hm]
  have hkt : ((t.heap o).link .klippy).connected = false := by
    simp only [ht, releaseLink, hk]
    unfold onUnbound modifyLink
    simp only
    split <;> simp
  have hidle : (releaseLink .moonraker t o).stateOf o = .idle := by
    simp only [releaseLink, hmt]
    exact onUnbound_idle _ _ _ hkt
  unfold released stateOf at *
  rw [modify_heap, Function.update_self]
  exact hidle

/-- **The block of `stop`**: exactly the bindings whose connection the object still holds
end, and the object holds no connection afterwards.
SOURCE: KlipperInstance.kt:140-163 -/
theorem runUnbind_spec :
    Releasing s o (s.runUnbind o) ∧
      (∀ svc, ((s.runUnbind o).heap o).link svc = {}) ∧
      (s.runUnbind o).bindings = s.bindings.filter fun b => ¬s.Holds o b.conn := by
  have hlink : ∀ svc, ((released s o).heap o).link svc = {} := by
    intro svc
    unfold released
    rw [modify_heap, Function.update_self]
  rw [runUnbind_eq]
  split
  · refine ⟨released_releasing.notify_idle, fun svc => ?_, ?_⟩
    · rw [notifyStateChanged_heap, Function.update_self]
      exact hlink svc
    · rw [notifyStateChanged_bindings, released_bindings]
  · exact ⟨released_releasing, hlink, released_bindings⟩

/-- The block of `stop` leaves its object idle when it was stopping, and also when it held
both connections: the second one released finds the other service gone.
SOURCE: KlipperInstance.kt:140-180 -/
theorem runUnbind_idle (h : s.stateOf o = .stopping ∨
    ∀ svc, ((s.heap o).link svc).connection.isSome) : (s.runUnbind o).stateOf o = .idle := by
  rw [runUnbind_eq]
  split
  · simp [stateOf_notifyStateChanged]
  · next hne =>
    rcases h with h | h
    · rcases (released_releasing (s := s) (o := o)).state with ⟨hst, -⟩ | ⟨hst, -⟩
      · exact absurd (hst.trans h) hne
      · exact hst
    · exact released_idle h

variable (s o)

/-! ## The block of `start` -/

/-- **The block of `start`**, when the slot has its service classes: two new bindings at
the object's slot, whose connections the object holds from now on.
SOURCE: KlipperInstance.kt:93-132 -/
theorem runBind_eq (instId : String) (h : HasService (s.heap o).slot) :
    s.runBind o instId = { s with
      heap := Function.update s.heap o { s.heap o with link := fun svc =>
        { (s.heap o).link svc with
          intent := some (s.heap o).slot
          connection := some (match svc with
            | .klippy => s.nextConn
            | .moonraker => s.nextConn + 1) } }
      nextConn := s.nextConn + 2
      bindings := s.bindings ++
        [⟨s.nextConn, o, .klippy, (s.heap o).slot, instId, false⟩,
          ⟨s.nextConn + 1, o, .moonraker, (s.heap o).slot, instId, false⟩] } := by
  unfold runBind
  rw [if_pos h]
  simp only [bindService, modifyLink, modify, Function.update_self, Function.update_idem,
    List.append_assoc, List.cons_append, List.nil_append]
  congr 2
  congr 1
  funext svc
  cases svc <;> rfl

/-- What the block of `start` leaves of its object. -/
theorem runBind_self (instId : String) (h : HasService (s.heap o).slot) :
    (s.runBind o instId).heap o = { s.heap o with link := fun svc =>
      { (s.heap o).link svc with
        intent := some (s.heap o).slot
        connection := some (match svc with
          | .klippy => s.nextConn
          | .moonraker => s.nextConn + 1) } } := by
  rw [runBind_eq s o instId h]
  exact Function.update_self _ _ _

/-! ## The callbacks -/

/-- What `onServiceConnected` leaves of the owner: its link is connected, and it runs when the
other one is.
SOURCE: KlipperInstance.kt:99-104, 118-123 -/
theorem onServiceConnected_self (b : Binding) :
    (s.onServiceConnected b).heap b.owner = { s.heap b.owner with
      link := Function.update (s.heap b.owner).link b.svc
        { (s.heap b.owner).link b.svc with connected := true }
      state := if ((s.heap b.owner).link b.svc.other).connected then .running
        else s.stateOf b.owner } := by
  set u := (s.setConnected b.conn true).modifyLink b.owner b.svc
    fun l => { l with connected := true } with hu
  have hself : u.heap b.owner = { s.heap b.owner with
      link := Function.update (s.heap b.owner).link b.svc
        { (s.heap b.owner).link b.svc with connected := true } } := by
    rw [hu, modifyLink, modify_heap, Function.update_self]
    rfl
  have hother : ((u.heap b.owner).link b.svc.other).connected =
      ((s.heap b.owner).link b.svc.other).connected := by
    rw [hself]
    cases b.svc <;> simp [Svc.other]
  have hrun : s.onServiceConnected b =
      if ((s.heap b.owner).link b.svc.other).connected then
        u.notifyStateChanged b.owner .running else u := by
    rw [← hother]
    rfl
  rw [hrun]
  split
  · rw [notifyStateChanged_heap, Function.update_self, hself]
  · exact hself

/-- The link it marks stays the same connection. -/
theorem connection_onServiceConnected (b : Binding) (svc : Svc) :
    (((s.onServiceConnected b).heap b.owner).link svc).connection =
      ((s.heap b.owner).link svc).connection := by
  rw [onServiceConnected_self]
  by_cases hsvc : svc = b.svc
  · subst hsvc
    simp
  · simp [Function.update_of_ne hsvc]

/-- It is the only one that is connected now and was not before. -/
theorem connected_onServiceConnected (b : Binding) (svc : Svc) :
    (((s.onServiceConnected b).heap b.owner).link svc).connected =
      if svc = b.svc then true else ((s.heap b.owner).link svc).connected := by
  rw [onServiceConnected_self]
  by_cases hsvc : svc = b.svc
  · subst hsvc
    simp
  · simp [hsvc]

/-- The owner runs when the other link is connected. -/
theorem stateOf_onServiceConnected (b : Binding) :
    (s.onServiceConnected b).stateOf b.owner =
      if ((s.heap b.owner).link b.svc.other).connected then .running else s.stateOf b.owner := by
  rw [stateOf, onServiceConnected_self]

/-! ## The server blocks -/

/-- Two registries the instances cannot tell apart. -/
structure SameInstances (s t : Registry) : Prop where
  heap : t.heap = s.heap
  created : t.created = s.created
  lookup : ∀ x, t.slots.lookup x = s.slots.lookup x
  instances : t.instances = s.instances
  instanceMap : t.instanceMap = s.instanceMap
  queue : t.queue = s.queue
  bindings : t.bindings = s.bindings
  nextConn : s.nextConn ≤ t.nextConn
  crashed : t.crashed = s.crashed

variable {s}

/-- Two steps that the instances do not see, they do not see together. -/
theorem SameInstances.trans {t u : Registry} (h : SameInstances s t) (h' : SameInstances t u) :
    SameInstances s u where
  heap := h'.heap.trans h.heap
  created := h'.created.trans h.created
  lookup x := (h'.lookup x).trans (h.lookup x)
  instances := h'.instances.trans h.instances
  instanceMap := h'.instanceMap.trans h.instanceMap
  queue := h'.queue.trans h.queue
  bindings := h'.bindings.trans h.bindings
  nextConn := h.nextConn.trans h'.nextConn
  crashed := h'.crashed.trans h.crashed

/-- What a step does to the servers, their events included, is not seen by the instances. -/
theorem SameInstances.of_eq {t : Registry} (hslots : t.slots = s.slots)
    (h : { t with
      slots := s.slots
      nextConn := s.nextConn
      webServerConnection := s.webServerConnection
      cameraServerConnection := s.cameraServerConnection
      serverBindings := s.serverBindings
      fired := s.fired } = s) (hconn : s.nextConn ≤ t.nextConn) : SameInstances s t := by
  cases s
  cases t
  simp only [Registry.mk.injEq] at h hslots
  constructor <;> simp_all

variable (s)

/-- Binding the servers is not seen by the instances.
SOURCE: KlipperInstance.kt:196-216 -/
theorem runBindServers_same : SameInstances s s.runBindServers := by
  have hrefl : ∀ t, SameInstances t t := fun t => .of_eq rfl rfl le_rfl
  have hbind : ∀ (t : Registry) server, SameInstances t (t.bindServer server) := fun t server => by
    cases server <;> exact .of_eq rfl rfl (Nat.le_succ _)
  have hweb : SameInstances s (if s.webServerConnection = none then
      (s.fire (.webStateChanged .starting)).bindServer .web else s) := by
    split
    · have hfire : SameInstances s (s.fire (.webStateChanged .starting)) :=
        .of_eq rfl rfl le_rfl
      exact hfire.trans (hbind _ _)
    · exact hrefl s
  have hcamera : ∀ t : Registry, SameInstances t
      (if t.cameraEnabled ∧ t.cameraServerConnection = none then t.bindServer .camera else t) := by
    intro t
    split
    · exact hbind t _
    · exact hrefl t
  exact hweb.trans (hcamera _)

/-- The web server's part of `stopServerServicesIfNoSlots`. -/
def stopWebServer (s : Registry) : Registry :=
  match s.webServerConnection with
  | none => s
  | some c =>
    { ((s.fire (.webStateChanged .stopping)).unbindServer c).fire (.webStateChanged .idle) with
      webServerConnection := none }

/-- The camera server's part. -/
def stopCameraServer (s : Registry) : Registry :=
  match s.cameraServerConnection with
  | none => s
  | some c => { s.unbindServer c with cameraServerConnection := none }

/-- While nothing runs the slots are cleared and both servers stopped. -/
theorem stopServers_eq (s : Registry) : s.stopServerServicesIfNoSlots =
    if s.hasAnyRunningInstance then s
    else ({ s with slots := ∅ } : Registry).stopWebServer.stopCameraServer := rfl

/-- When no idle object is a key, `slots.clear()` is reached only with no key at all, so
stopping the servers is not seen by the instances.
SOURCE: KlipperInstance.kt:350-370 -/
theorem stopServers_same (hactive : ∀ y k, s.slots.lookup y = some k → s.stateOf y ≠ .idle) :
    SameInstances s s.stopServerServicesIfNoSlots := by
  have hempty : s.hasAnyRunningInstance = false → s.slots = ∅ := by
    intro hany
    have hnone : ∀ y, y ∉ s.slots := by
      intro y hy
      obtain ⟨k, hk⟩ := (mem_keys_iff_lookup y).mp (AList.mem_keys.mp hy)
      have hall := List.any_eq_false.mp hany y (AList.mem_keys.mp hy)
      cases hst : s.stateOf y with
      | idle => exact hactive y k hk hst
      | starting => simp [hst] at hall
      | running => simp [hst] at hall
      | stopping => simp [hst] at hall
    have hkeys : s.slots.keys = [] :=
      List.eq_nil_iff_forall_not_mem.mpr fun y hy => hnone y (AList.mem_keys.mpr hy)
    exact AList.ext (List.map_eq_nil_iff.mp hkeys)
  rw [stopServers_eq]
  cases hany : s.hasAnyRunningInstance with
  | true => exact .of_eq rfl rfl le_rfl
  | false =>
    have hslots : ({ s with slots := ∅ } : Registry) = s := by rw [← hempty hany]
    rw [if_neg Bool.false_ne_true, hslots]
    have hweb : SameInstances s s.stopWebServer := by
      unfold stopWebServer
      split <;> exact .of_eq rfl rfl le_rfl
    have hcamera : ∀ t : Registry, SameInstances t t.stopCameraServer := by
      intro t
      unfold stopCameraServer
      split <;> exact .of_eq rfl rfl le_rfl
    exact hweb.trans (hcamera _)

/-! ## The objects of a load -/

/-- What `BeamDB.getInstances` adds: after all other objects, one for each row. -/
structure Loaded (s : Registry) (rows : List Row) (t : Registry) (os : List Oid) : Prop where
  eq : t = { s with heap := t.heap, created := t.created }
  created : s.created ≤ t.created
  heap : ∀ x < s.created, t.heap x = s.heap x
  objects : os.map t.heap = rows.map fun row => { toRow := row }
  range : ∀ o ∈ os, s.created ≤ o ∧ o < t.created
  all : ∀ x, s.created ≤ x → x < t.created → x ∈ os
  nodup : os.Nodup

/-- **Loading the rows** makes a new object of each.
SOURCE: BeamDB.kt:48-72 -/
theorem loadRows_spec (rows : List Row) :
    Loaded s rows (s.loadRows rows).1 (s.loadRows rows).2 := by
  induction rows generalizing s with
  | nil =>
    refine ⟨rfl, le_rfl, fun _ _ => rfl, rfl, fun o ho => (List.not_mem_nil ho).elim, ?_, List.nodup_nil⟩
    intro x hx hx'
    exact absurd hx' (Nat.not_lt.mpr hx)
  | cons row rows ih =>
    set s' : Registry := { s with
      heap := Function.update s.heap s.created { toRow := row }
      created := s.created + 1 } with hs'
    have ih := ih s'
    have hrun : s.loadRows (row :: rows) =
        ((s'.loadRows rows).1, s.created :: (s'.loadRows rows).2) := rfl
    rw [hrun]
    set t := (s'.loadRows rows).1
    set os := (s'.loadRows rows).2
    have hfirst : t.heap s.created = { toRow := row } := by
      rw [ih.heap s.created (Nat.lt_succ_self _), hs']
      exact Function.update_self _ _ _
    have hle : s.created + 1 ≤ t.created := ih.created
    have hrange : ∀ o ∈ os, s.created + 1 ≤ o ∧ o < t.created := ih.range
    refine ⟨ih.eq, by lia, ?_, ?_, ?_, ?_, ?_⟩
    · intro x hx
      have hne : x ≠ s.created := by lia
      rw [ih.heap x (show x < s.created + 1 by lia), hs']
      exact Function.update_of_ne hne _ _
    · simp only [List.map_cons, hfirst, ih.objects]
    · intro o ho
      rcases List.mem_cons.mp ho with rfl | ho
      · exact ⟨le_rfl, by lia⟩
      · have := hrange o ho
        lia
    · intro x hx hx'
      by_cases hxs : x = s.created
      · exact hxs ▸ List.mem_cons_self
      · exact List.mem_cons_of_mem _ (ih.all x (show s.created + 1 ≤ x by lia) hx')
    · refine List.nodup_cons.mpr ⟨fun hmem => ?_, ih.nodup⟩
      have := hrange _ hmem
      lia

variable {s}

/-- An object of a load is idle, with no links. -/
theorem Loaded.fresh {rows : List Row} {t : Registry} {os : List Oid} (h : Loaded s rows t os)
    {o : Oid} (ho : o ∈ os) : ∃ row ∈ rows, t.heap o = { toRow := row } := by
  have hmem : t.heap o ∈ os.map t.heap := List.mem_map_of_mem ho
  rw [h.objects] at hmem
  obtain ⟨row, hrow, heq⟩ := List.mem_map.mp hmem
  exact ⟨row, hrow, heq.symm⟩

/-- The objects of a load carry the ids of its rows. -/
theorem Loaded.ids {rows : List Row} {t : Registry} {os : List Oid} (h : Loaded s rows t os) :
    os.map t.idOf = rows.map Row.id := by
  have hmap : (os.map t.heap).map (fun i => i.id) = os.map t.idOf := by
    rw [List.map_map]
    rfl
  rw [← hmap, h.objects, List.map_map]
  rfl

/-! ## `getInstance` -/

/-- The object `getInstance` finds without asking the database. -/
def registered (s : Registry) (i : String) : Option Oid := (s.instanceMapGet i).2

/-- The registered object is that of the map, or else that of the list. -/
theorem registered_eq (i : String) :
    s.registered i = (s.instanceMap i).or (s.findById s.instances i) := by
  unfold registered instanceMapGet
  cases h : s.instanceMap i with
  | some o => rfl
  | none =>
    cases h' : s.findById s.instances i with
    | some o => rfl
    | none => rfl

/-- The objects the companion refers to exist, and the map files them under their ids. -/
structure Indexed (s : Registry) : Prop where
  instances : ∀ o ∈ s.instances, o < s.created
  instanceMap : ∀ i o, s.instanceMap i = some o → o < s.created ∧ s.idOf o = i

/-- What is found is in the list and has the id. -/
theorem findById_some {os : List Oid} {i : String} {o : Oid} (h : s.findById os i = some o) :
    o ∈ os ∧ s.idOf o = i :=
  ⟨List.mem_of_find?_eq_some h, by simpa using List.find?_some h⟩

/-- Of objects with distinct ids each is found for its own. -/
theorem findById_of_mem {os : List Oid} {o : Oid} (hnodup : (os.map s.idOf).Nodup) (ho : o ∈ os) :
    s.findById os (s.idOf o) = some o := by
  cases hfind : s.findById os (s.idOf o) with
  | none =>
    have hnone := List.find?_eq_none.mp hfind o ho
    simp at hnone
  | some x =>
    obtain ⟨hx, hid⟩ := findById_some hfind
    rw [List.inj_on_of_nodup_map hnodup hx ho hid]

/-- A registered object exists and has its id. -/
theorem Indexed.registered (h : Indexed s) {i : String} {w : Oid}
    (hw : s.registered i = some w) : w < s.created ∧ s.idOf w = i := by
  rw [registered_eq] at hw
  cases hmap : s.instanceMap i with
  | some o =>
    rw [hmap, Option.some_or, Option.some.injEq] at hw
    exact hw ▸ h.instanceMap i o hmap
  | none =>
    rw [hmap, Option.none_or] at hw
    obtain ⟨hmem, hid⟩ := findById_some hw
    exact ⟨h.instances w hmem, hid⟩

/-- What `getInstance` may change, and what it may answer: the registered object, or one of
the idle objects it has just read from the database. -/
structure Looked (s : Registry) (i : String) (t : Registry) (r : Option Oid) : Prop where
  eq : t = { s with
    heap := t.heap, created := t.created, instances := t.instances, instanceMap := t.instanceMap }
  created : s.created ≤ t.created
  heap : ∀ x < s.created, t.heap x = s.heap x
  fresh : ∀ x, s.created ≤ x → x < t.created → ∃ row, t.heap x = { toRow := row }
  instances : ∀ x ∈ t.instances, x ∈ s.instances ∨ (s.created ≤ x ∧ x < t.created)
  instanceMap : ∀ j x, t.instanceMap j = some x →
    s.registered j = some x ∨ (s.created ≤ x ∧ x < t.created ∧ t.idOf x = j)
  registered : ∀ j, t.registered j = s.registered j ∨
    (s.registered j = none ∧ ∃ w, t.registered j = some w ∧ s.created ≤ w ∧ w < t.created)
  result : r = s.registered i ∨
    (s.registered i = none ∧ ∃ w, r = some w ∧ s.created ≤ w ∧ w < t.created ∧ t.idOf w = i)

/-- The same ids are found for the same objects. -/
theorem findById_congr {t : Registry} {os : List Oid} (h : ∀ o ∈ os, t.idOf o = s.idOf o)
    (i : String) : t.findById os i = s.findById os i := by
  unfold findById
  exact List.find?_congr fun o ho => by rw [h o ho]

/-- Looking up the map only remembers what the search finds.
SOURCE: KlipperInstance.kt:233-247 -/
theorem instanceMapGet_registered (i j : String) :
    (s.instanceMapGet i).1.registered j = s.registered j := by
  have hkeep : ∀ o, s.instanceMap i = none → s.findById s.instances i = some o →
      ({ s with instanceMap := Function.update s.instanceMap i (some o) } : Registry).registered j =
        s.registered j := by
    intro o hnone hfind
    rw [registered_eq, registered_eq]
    by_cases hj : j = i
    · subst hj
      simp [hnone, hfind]
    · simp only [Function.update_of_ne hj]
      rfl
  unfold instanceMapGet
  cases h : s.instanceMap i with
  | some o => rfl
  | none =>
    cases h' : s.findById s.instances i with
    | some o => exact hkeep o h h'
    | none => rfl

/-- The map remembers registered objects only. -/
theorem instanceMapGet_map {i j : String} {x : Oid}
    (h : (s.instanceMapGet i).1.instanceMap j = some x) : s.registered j = some x := by
  have hreg := instanceMapGet_registered (s := s) i j
  rw [registered_eq, h, Option.some_or] at hreg
  exact hreg.symm

/-- Only the map is written. -/
theorem instanceMapGet_eq (i : String) :
    (s.instanceMapGet i).1 = { s with instanceMap := (s.instanceMapGet i).1.instanceMap } := by
  unfold instanceMapGet
  split
  · rfl
  · split <;> rfl

/-- It is not written when there is no registered object. -/
theorem instanceMapGet_none {i : String} (h : s.registered i = none) :
    s.instanceMapGet i = (s, none) := by
  rw [registered_eq] at h
  unfold instanceMapGet
  cases hmap : s.instanceMap i with
  | some o => simp [hmap] at h
  | none =>
    rw [hmap, Option.none_or] at h
    simp only [h]

/-- A load changes no answer of the map and the list of instances. -/
theorem Loaded.registered {rows : List Row} {t : Registry} {os : List Oid}
    (h : Loaded s rows t os) (hi : Indexed s) (i : String) : t.registered i = s.registered i := by
  have hmap : t.instanceMap = s.instanceMap := by rw [h.eq]
  have hinst : t.instances = s.instances := by rw [h.eq]
  have hid : ∀ o ∈ s.instances, t.idOf o = s.idOf o := by
    intro o ho
    rw [idOf, h.heap o (hi.instances o ho), idOf]
  rw [registered_eq, registered_eq, hmap, hinst, findById_congr hid]

/-- A load changes no more than a lookup may. -/
theorem Loaded.looked {rows : List Row} {t : Registry} {os : List Oid}
    (h : Loaded s rows t os) (hi : Indexed s) (i : String) : Looked s i t (s.registered i) where
  eq := by
    rw [h.eq]
  created := h.created
  heap := h.heap
  fresh x hx hx' := by
    obtain ⟨row, -, hrow⟩ := h.fresh (h.all x hx hx')
    exact ⟨row, hrow⟩
  instances x hx := by
    rw [h.eq] at hx
    exact .inl hx
  instanceMap j x hx := by
    left
    rw [h.eq] at hx
    have hx : s.instanceMap j = some x := hx
    rw [registered_eq, hx, Option.some_or]
  registered j := .inl (h.registered hi j)
  result := .inl rfl

/-- **`getInstance`** answers the registered object, or else an object it has just read
from the database and now remembers.
SOURCE: KlipperInstance.kt:293-320 -/
theorem getInstance_looked (h : Indexed s) (i : String) (db : Option (List Row)) :
    Looked s i (s.getInstance i db).1 (s.getInstance i db).2 := by
  have hself : s.registered i = none → Looked s i s none := fun hnone =>
    ⟨rfl, le_rfl, fun _ _ => rfl, fun x hx hx' => absurd hx' (Nat.not_lt.mpr hx),
      fun x hx => .inl hx, fun j x hx => by
        left
        rw [registered_eq, hx, Option.some_or], fun _ => .inl rfl, .inl hnone.symm⟩
  cases hreg : s.registered i with
  | some o =>
    have hget : s.getInstance i db = ((s.instanceMapGet i).1, some o) := by
      unfold getInstance
      rw [show s.instanceMapGet i = ((s.instanceMapGet i).1, some o) from Prod.ext rfl hreg]
    have hmap := instanceMapGet_eq (s := s) i
    rw [hget]
    refine ⟨?_, ?_, ?_, ?_, ?_, ?_, ?_, .inl hreg.symm⟩
    · rw [hmap]
    · rw [hmap]
    · rw [hmap]
      exact fun _ _ => rfl
    · rw [hmap]
      exact fun x hx hx' => absurd hx' (Nat.not_lt.mpr hx)
    · rw [hmap]
      exact fun x hx => .inl hx
    · exact fun j x hx => .inl (instanceMapGet_map hx)
    · exact fun j => .inl (instanceMapGet_registered i j)
  | none =>
    unfold getInstance
    rw [instanceMapGet_none hreg]
    cases db with
    | none => exact hself hreg
    | some rows =>
      have hload := loadRows_spec s rows
      simp only
      set t := (s.loadRows rows).1
      set all := (s.loadRows rows).2
      have hbase := hload.looked h i
      rw [hreg] at hbase
      cases hfind : t.findById all i with
      | none => exact hbase
      | some o =>
        simp only
        obtain ⟨hoall, hoid⟩ := findById_some hfind
        have hmap : t.instanceMap = s.instanceMap := by rw [hload.eq]
        have hinst : t.instances = s.instances := by rw [hload.eq]
        refine ⟨?_, hbase.created, hbase.heap, hbase.fresh, ?_, ?_, ?_, ?_⟩
        · rw [hbase.eq]
        · intro x hx
          simp only at hx
          split at hx
          · exact .inr (hload.range x hx)
          · exact hbase.instances x hx
        · intro j x hx
          by_cases hj : j = i
          · subst hj
            simp only [Function.update_self, Option.some.injEq] at hx
            subst hx
            exact .inr ⟨(hload.range _ hoall).1, (hload.range _ hoall).2, hoid⟩
          · simp only [Function.update_of_ne hj] at hx
            exact hbase.instanceMap j x hx
        · intro j
          rw [registered_eq]
          by_cases hj : j = i
          · subst hj
            exact .inr ⟨hreg, o, by simp, hload.range o hoall⟩
          · simp only [Function.update_of_ne hj, hmap, hinst]
            cases hsj : s.instanceMap j with
            | some x =>
              left
              rw [registered_eq, hsj, Option.some_or, Option.some_or]
            | none =>
              rw [Option.none_or]
              split
              · next hempty =>
                cases hall : t.findById all j with
                | none =>
                  left
                  rw [registered_eq, hsj, List.isEmpty_iff.mp hempty]
                  exact hall
                | some w =>
                  refine .inr ⟨?_, w, hall, hload.range w (findById_some hall).1⟩
                  rw [registered_eq, hsj, List.isEmpty_iff.mp hempty]
                  rfl
              · left
                have hsame := hload.registered h j
                rw [registered_eq, hmap, hsj, hinst, Option.none_or] at hsame
                exact hsame
        · exact .inr ⟨hreg, o, rfl, (hload.range o hoall).1, (hload.range o hoall).2, hoid⟩

/-- What was just read from the database is idle. -/
theorem Looked.idle {t : Registry} {i : String} {r : Option Oid} (h : Looked s i t r) {x : Oid}
    (hge : s.created ≤ x) (hlt : x < t.created) : t.stateOf x = .idle := by
  obtain ⟨row, hrow⟩ := h.fresh x hge hlt
  rw [stateOf, hrow]

/-- The companion stays indexed. -/
theorem Looked.indexed {t : Registry} {i : String} {r : Option Oid} (h : Looked s i t r)
    (hi : Indexed s) : Indexed t where
  instances x hx := by
    rcases h.instances x hx with hx | hx
    · exact (hi.instances x hx).trans_le h.created
    · exact hx.2
  instanceMap j x hx := by
    rcases h.instanceMap j x hx with hx | ⟨-, hlt, hid⟩
    · obtain ⟨hlt, hid⟩ := hi.registered hx
      refine ⟨hlt.trans_le h.created, ?_⟩
      rw [idOf, h.heap x hlt]
      exact hid
    · exact ⟨hlt, hid⟩

/-- The same lists and the same ids give the same registered objects. -/
theorem registered_congr {t : Registry} (hmap : t.instanceMap = s.instanceMap)
    (hinst : t.instances = s.instances) (hid : ∀ o ∈ s.instances, t.idOf o = s.idOf o)
    (i : String) : t.registered i = s.registered i := by
  rw [registered_eq, registered_eq, hmap, hinst, findById_congr hid]

/-- The companion's references survive any step that keeps them and the ids. -/
theorem Indexed.congr {t : Registry} (hi : Indexed s) (hcreated : s.created ≤ t.created)
    (hid : ∀ x < s.created, t.idOf x = s.idOf x) (hinst : t.instances = s.instances)
    (hmap : t.instanceMap = s.instanceMap) : Indexed t where
  instances o ho := by
    rw [hinst] at ho
    exact (hi.instances o ho).trans_le hcreated
  instanceMap i o ho := by
    rw [hmap] at ho
    obtain ⟨hlt, he⟩ := hi.instanceMap i o ho
    exact ⟨hlt.trans_le hcreated, (hid o hlt).trans he⟩

/-- An object that `getInstance` answers is the registered one of its id, or one that has just
been read from the database. -/
theorem Looked.found {t : Registry} {i : String} {was : Oid} (hi : Indexed s)
    (hl : Looked s i t (some was)) :
    t.idOf was = i ∧ was < t.created ∧
      ((s.registered i = some was ∧ was < s.created ∧ t.heap was = s.heap was) ∨
        (s.registered i = none ∧ s.created ≤ was ∧ ∃ row, t.heap was = { toRow := row })) := by
  rcases hl.result with hres | ⟨hnone, w, hw, hge, hlt, hid⟩
  · obtain ⟨hlt, hid⟩ := hi.registered hres.symm
    refine ⟨?_, hlt.trans_le hl.created, .inl ⟨hres.symm, hlt, hl.heap was hlt⟩⟩
    rw [idOf, hl.heap was hlt]
    exact hid
  · rw [Option.some.injEq] at hw
    subst hw
    exact ⟨hid, hlt, .inr ⟨hnone, hge, hl.fresh was hge hlt⟩⟩

/-! ## The copy of an old object's fields -/

variable (s)

/-- Only the new object and the slots are written. -/
theorem adopt_eq (inst was : Oid) :
    s.adopt inst was = { s with
      heap := Function.update s.heap inst { s.heap inst with
        state := s.stateOf was, link := (s.heap was).link, slot := (s.heap was).slot }
      slots := (s.adopt inst was).slots } := by
  unfold adopt
  simp only
  split <;> rfl

/-- The entry of the old object passes to the new one, if the old one is not idle.
SOURCE: KlipperInstance.kt:263-266 -/
theorem lookup_adopt (inst was x : Oid) :
    (s.adopt inst was).slots.lookup x =
      if x = inst ∧ s.stateOf was ≠ .idle then some (s.heap was).slot
      else if x = was then none else s.slots.lookup x := by
  have herase : (s.slots.erase was).lookup x = if x = was then none else s.slots.lookup x := by
    by_cases hx : x = was
    · subst hx
      rw [if_pos rfl, AList.lookup_erase]
    · rw [if_neg hx, AList.lookup_erase_ne hx]
  have hslots : (s.adopt inst was).slots = if s.stateOf was ≠ .idle then
      (s.slots.erase was).insert inst (s.heap was).slot else s.slots.erase was := by
    unfold adopt stateOf
    simp only
    split <;> rfl
  rw [hslots]
  by_cases hst : s.stateOf was ≠ .idle
  · rw [if_pos hst]
    by_cases hx : x = inst
    · subst hx
      simp [hst]
    · rw [AList.lookup_insert_ne hx, herase]
      simp [hx]
  · rw [if_neg hst, herase]
    simp [hst]

/-- An idle old object had no entry, so none passes. -/
theorem lookup_adopt_idle {inst was : Oid} (hidle : s.stateOf was = .idle)
    (hnone : s.slots.lookup was = none) (x : Oid) :
    (s.adopt inst was).slots.lookup x = s.slots.lookup x := by
  rw [lookup_adopt, if_neg fun h => h.2 hidle]
  by_cases hx : x = was
  · subst hx
    rw [if_pos rfl, hnone]
  · rw [if_neg hx]

variable (inst was : Oid)

/-- The new object has the old one's state, links and slot. -/
theorem heap_adopt_self : (s.adopt inst was).heap inst = { s.heap inst with
    state := s.stateOf was, link := (s.heap was).link, slot := (s.heap was).slot } := by
  rw [adopt_eq]
  exact Function.update_self _ _ _

variable {inst} in
/-- The other objects stay as they are. -/
theorem heap_adopt_of_ne {x : Oid} (hx : x ≠ inst) : (s.adopt inst was).heap x = s.heap x := by
  rw [adopt_eq]
  exact Function.update_of_ne hx _ _

/-- No object changes its id. -/
theorem idOf_adopt (x : Oid) : (s.adopt inst was).idOf x = s.idOf x := by
  by_cases hx : x = inst
  · subst hx
    rw [idOf, heap_adopt_self, idOf]
  · rw [idOf, heap_adopt_of_ne s was hx, idOf]

/-- The new object comes to the state of the old one. -/
theorem stateOf_adopt_self : (s.adopt inst was).stateOf inst = s.stateOf was := by
  rw [stateOf, heap_adopt_self]

variable {inst} in
/-- The other objects stay in their states. -/
theorem stateOf_adopt_of_ne {x : Oid} (hx : x ≠ inst) :
    (s.adopt inst was).stateOf x = s.stateOf x := by
  rw [stateOf, heap_adopt_of_ne s was hx, stateOf]

/-- No object is created. -/
@[simp] theorem adopt_created : (s.adopt inst was).created = s.created := by rw [adopt_eq]

/-- The list of the instances is not touched. -/
@[simp] theorem adopt_instances : (s.adopt inst was).instances = s.instances := by rw [adopt_eq]

/-- Neither is the map from the ids. -/
@[simp] theorem adopt_instanceMap : (s.adopt inst was).instanceMap = s.instanceMap := by
  rw [adopt_eq]

/-- Nothing is posted. -/
@[simp] theorem adopt_queue : (s.adopt inst was).queue = s.queue := by rw [adopt_eq]

/-- Nothing is bound. -/
@[simp] theorem adopt_bindings : (s.adopt inst was).bindings = s.bindings := by rw [adopt_eq]

/-- No connection is made. -/
@[simp] theorem adopt_nextConn : (s.adopt inst was).nextConn = s.nextConn := by rw [adopt_eq]

/-- Nobody is told. -/
@[simp] theorem adopt_notified : (s.adopt inst was).notified = s.notified := by rw [adopt_eq]

/-- The registered objects stay the same ones. -/
theorem registered_adopt (i : String) : (s.adopt inst was).registered i = s.registered i :=
  registered_congr (s.adopt_instanceMap inst was) (s.adopt_instances inst was)
    (fun x _ => s.idOf_adopt inst was x) i

variable {s} in
/-- One round of the adoption loop looks the old object up, and copies it if there is one.
SOURCE: KlipperInstance.kt:252-268 -/
theorem adoptRow_spec (hi : Indexed s) (db : Option (List Row)) :
    ∃ t r, Looked s (s.idOf inst) t r ∧ adoptRow db s inst = r.elim t (t.adopt inst) := by
  refine ⟨_, _, getInstance_looked hi (s.idOf inst) db, ?_⟩
  unfold adoptRow
  rcases s.getInstance (s.idOf inst) db with ⟨t, _ | was⟩ <;> rfl

end Registry

end Cream.Model
