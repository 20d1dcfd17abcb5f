import Cream.Analysis.ReloadCoherence
import Cream.Analysis.LegalTransitions

/-!
# A start that fails

`start` looks for the two directories first and for a slot afterwards. When a directory is
missing it takes the instance back through `stop`; when there is no slot it throws with
`STARTING` already published, and nothing takes that back. The first kind of failure leaves
the registry intact, provided no key carries the instance's id (becoming idle removes every
key with the id) and no block that binds the instance is still queued.

The second part is the autostart loop of a reload: an exception of `start` leaves it, so it
runs to its end when there is **room**, i.e. when the keys the reload leaves, the running
objects it takes over and the rows it starts are at most `SLOTS_COUNT` together.
-/

set_option autoImplicit false

namespace Cream.Model.Registry

open Cream.Library.Transition

variable {s t u v : Registry} {o : Oid}

/-! ## Draining the handler -/

/-- The registry after so many posted blocks. -/
def Posts (s : Registry) (n : Nat) (t : Registry) : Prop :=
  run step s (List.replicate n .runPosted) = some t

/-- A number of blocks is run one part after the other. -/
theorem Posts.split {m n : Nat} (h : Posts s (m + n) u) : ∃ t, Posts s m t ∧ Posts t n u := by
  unfold Posts at h
  rw [List.replicate_add] at h
  exact run_append_eq_some.mp h

/-- The blocks decide where it ends. -/
theorem Posts.unique {n : Nat} (h : Posts s n t) (h' : Posts s n u) : t = u :=
  Option.some.inj (h.symm.trans h')

/-- A block is run when one is queued, unless the process has ended. -/
theorem step_runPosted (hc : s.crashed = false) {b : Block} {q : List Block}
    (hq : s.queue = b :: q) : step s .runPosted = some ({ s with queue := q }.runBlock b) := by
  simp [step, hc, hq]

/-- What a step that runs a block has found. -/
theorem of_step_runPosted (hs : step s .runPosted = some t) :
    s.crashed = false ∧ ∃ b q, s.queue = b :: q ∧ t = { s with queue := q }.runBlock b := by
  unfold step at hs
  split at hs
  · cases hs
  · next hc =>
    cases hq : s.queue with
    | nil => simp [hq] at hs
    | cons b q =>
      simp only [hq, Option.some.injEq] at hs
      exact ⟨by simpa using hc, b, q, rfl, hs.symm⟩

/-- A posted block posts nothing but `stopServerServicesIfNoSlots`, and only the block of
`stop` posts at all. -/
theorem runBlock_queue (b : Block) : ∃ n, (s.runBlock b).queue =
    s.queue ++ List.replicate n .stopServers ∧ (b = .stopServers → n = 0) := by
  cases b with
  | bind x instId =>
    refine ⟨0, ?_, nofun⟩
    rw [List.replicate_zero, List.append_nil]
    show (s.runBind x instId).queue = s.queue
    by_cases hslot : HasService (s.heap x).slot
    · rw [runBind_eq _ _ _ hslot]
    · unfold runBind
      rw [if_neg hslot]
  | unbind x =>
    obtain ⟨n, hn⟩ := (runUnbind_spec (s := s) (o := x)).1.queue
    exact ⟨n, hn, nofun⟩
  | stopServers =>
    refine ⟨0, ?_, fun _ => rfl⟩
    rw [List.replicate_zero, List.append_nil]
    show s.stopServerServicesIfNoSlots.queue = s.queue
    unfold stopServerServicesIfNoSlots
    split
    · rfl
    · cases s.webServerConnection <;> cases s.cameraServerConnection <;> rfl
  | bindServers =>
    refine ⟨0, ?_, nofun⟩
    rw [List.replicate_zero, List.append_nil]
    exact (runBindServers_same s).queue

/-- **The handler drains**: after finitely many blocks the queue is empty, or a block has
ended the process. -/
theorem drains (s : Registry) : ∃ n t, Posts s n t ∧ (t.queue = [] ∨ t.crashed = true) := by
  -- the blocks that may post, then the length of the queue
  suffices h : ∀ work length (s : Registry),
      s.queue.countP (fun b => b ≠ .stopServers) = work → s.queue.length = length →
        ∃ n t, Posts s n t ∧ (t.queue = [] ∨ t.crashed = true) from h _ _ s rfl rfl
  intro work
  induction work using Nat.strong_induction_on with
  | _ work ihwork =>
    intro length
    induction length with
    | zero => exact fun s _ hlen => ⟨0, s, rfl, .inl (List.length_eq_zero_iff.mp hlen)⟩
    | succ length ihlength =>
      intro s hwork hlen
      cases hc : s.crashed with
      | true => exact ⟨0, s, rfl, .inr hc⟩
      | false =>
        obtain ⟨b, q, hq⟩ := List.exists_cons_of_length_eq_add_one hlen
        have hstep := step_runPosted hc hq
        obtain ⟨k, hqueue, hk⟩ := runBlock_queue (s := { s with queue := q }) b
        set t := Registry.runBlock { s with queue := q } b with ht
        have hcount : t.queue.countP (fun b => b ≠ .stopServers) =
            q.countP (fun b => b ≠ .stopServers) := by
          rw [hqueue, List.countP_append]
          simp [List.countP_replicate]
        rw [hq, List.countP_cons] at hwork
        have hrest : ∃ n u, Posts t n u ∧ (u.queue = [] ∨ u.crashed = true) := by
          by_cases hb : b = .stopServers
          · refine ihlength t ?_ ?_
            · rw [hcount, ← hwork]
              simp [hb]
            · rw [hqueue, hk hb, List.replicate_zero, List.append_nil]
              rw [hq, List.length_cons] at hlen
              exact Nat.succ.inj hlen
          · refine ihwork _ ?_ t.queue.length t hcount rfl
            rw [← hwork]
            simp [hb]
        obtain ⟨n, u, hu, hend⟩ := hrest
        refine ⟨1 + n, u, ?_, hend⟩
        unfold Posts
        rw [List.replicate_add]
        exact run_append_eq_some.mpr ⟨t, run_cons_eq_some.mpr ⟨t, hstep, rfl⟩, hu⟩

/-! ## A directory is missing -/

/-- No key carries the instance's id, and no block that binds it is queued. -/
def Unclaimed (s : Registry) (o : Oid) : Prop :=
  (∀ x ∈ s.slots.keys, s.idOf x ≠ s.idOf o) ∧ ∀ b ∈ s.queue, ∀ i, b ≠ .bind o i

/-- What a failed start of an object leaves of the registry: the slots it found, which only
the blocks queued before the call change afterwards, an idle object once the handler has
drained, and no binding that was not there before. -/
structure Intact (s : Registry) (o : Oid) (t : Registry) : Prop where
  slots : t.slots = s.slots
  idle : ∀ n u, Posts t n u → u.queue = [] → u.stateOf o = .idle
  kept : ∀ n u v, Posts t n u → u.queue = [] → Posts t s.queue.length v →
    ∀ x, u.slots.lookup x = v.slots.lookup x
  unbound : ∀ n u, Posts t n u → ∀ b ∈ u.bindings, b.owner = o → b ∈ s.bindings

/-- The registry while the handler drains after a failed start, with `m` of the blocks
queued before the call still to run. -/
structure Draining (s : Registry) (o : Oid) (m : Nat) (u : Registry) : Prop where
  awake : Awake u
  unkeyed : ∀ x k, u.slots.lookup x = some k → u.idOf x ≠ u.idOf o
  bound : ∀ b ∈ u.bindings, b.owner = o → b ∈ s.bindings
  unposted : ∀ b ∈ u.queue, ∀ i, b ≠ .bind o i
  state : u.stateOf o = .idle ∨ (u.stateOf o = .stopping ∧ .unbind o ∈ u.queue)
  queue : m ≤ u.queue.length ∧ ∀ b ∈ u.queue.drop m, b = .unbind o ∨ b = .stopServers

/-- What a step of the drain keeps of the slots, the object's state and its bindings. -/
structure Drained (o : Oid) (b : Block) (u t : Registry) : Prop where
  lookup : ∀ x k, t.slots.lookup x = some k → u.slots.lookup x = some k
  id : ∀ x, t.idOf x = u.idOf x
  state : t.stateOf o = u.stateOf o ∨ t.stateOf o = .idle
  stopped : b = .unbind o → u.stateOf o = .stopping → t.stateOf o = .idle
  kept : b = .unbind o ∨ b = .stopServers → ∀ x, t.slots.lookup x = u.slots.lookup x
  bindings : ∀ c ∈ t.bindings, c.owner = o → c ∈ u.bindings

/-- **Every posted block** but the object's own bind block, while its id has no entry, only strikes
entries out, binds nothing for the object, and leaves it as it is or makes it idle.
SOURCE: KlipperInstance.kt:96-163, 196-213, 340-371 -/
theorem runBlock_drained (ha : Awake u)
    (hkey : ∀ x k, u.slots.lookup x = some k → u.idOf x ≠ u.idOf o) {b : Block}
    (hb : ∀ i, b ≠ .bind o i) : Drained o b u (u.runBlock b) := by
  cases b with
  | bind x instId =>
    have hx : o ≠ x := by
      rintro rfl
      exact hb instId rfl
    have hsilent := silent_runBind u x instId
    refine ⟨fun y k hk => by rwa [← hsilent.lookup y], hsilent.id, .inl (hsilent.state o),
      fun heq => (by cases heq), fun heq => (by rcases heq with heq | heq <;> cases heq),
      fun c hc howner => ?_⟩
    by_cases hslot : HasService (u.heap x).slot
    · have hbindings : (u.runBind x instId).bindings = u.bindings ++
          [⟨u.nextConn, x, .klippy, (u.heap x).slot, instId, false⟩,
            ⟨u.nextConn + 1, x, .moonraker, (u.heap x).slot, instId, false⟩] := by
        rw [runBind_eq _ _ _ hslot]
      replace hc : c ∈ (u.runBind x instId).bindings := hc
      rw [hbindings] at hc
      rcases List.mem_append.mp hc with hc | hc
      · exact hc
      · simp only [List.mem_cons, List.not_mem_nil, or_false] at hc
        rcases hc with rfl | rfl <;> exact absurd howner.symm hx
    · replace hc : c ∈ (u.runBind x instId).bindings := hc
      unfold runBind at hc
      rwa [if_neg hslot] at hc
  | unbind x =>
    obtain ⟨hrel, -, hbindings⟩ := runUnbind_spec (s := u) (o := x)
    have hlookup : ∀ y k, (u.runUnbind x).slots.lookup y = some k →
        u.slots.lookup y = some k := by
      intro y k hk
      rcases hrel.state with ⟨-, hsame⟩ | ⟨-, hgone⟩
      · rwa [hsame] at hk
      · rw [hgone] at hk
        split at hk
        · cases hk
        · exact hk
    have hstate : (u.runUnbind x).stateOf o = u.stateOf o ∨
        (u.runUnbind x).stateOf o = .idle := by
      by_cases hx : o = x
      · subst hx
        rcases hrel.state with ⟨hst, -⟩ | ⟨hst, -⟩
        · exact .inl hst
        · exact .inr hst
      · exact .inl (by rw [stateOf, hrel.heap_ne o hx, stateOf])
    refine ⟨hlookup, hrel.idOf, hstate, fun heq hst => ?_, fun heq y => ?_, fun c hc _ => ?_⟩
    · cases heq
      exact runUnbind_idle (.inl hst)
    · have hx : x = o := by
        rcases heq with heq | heq
        · cases heq
          rfl
        · cases heq
      subst hx
      rcases hrel.state with ⟨-, hsame⟩ | ⟨-, hgone⟩
      · exact hsame y
      · -- no key carries the id that is removed
        refine (hgone y).trans ?_
        split
        · next hid =>
          cases hk : u.slots.lookup y with
          | none => rfl
          | some k => exact absurd hid (hkey y k hk)
        · rfl
    · replace hc : c ∈ (u.runUnbind x).bindings := hc
      rw [hbindings] at hc
      exact (List.mem_filter.mp hc).1
  | stopServers =>
    have hsame : SameInstances u u.stopServerServicesIfNoSlots := stopServers_same u ha.awake
    have hheap : ∀ x, u.stopServerServicesIfNoSlots.heap x = u.heap x := fun x => by
      rw [hsame.heap]
    exact ⟨fun y k hk => (hsame.lookup y).symm.trans hk, fun x => by
        show (u.stopServerServicesIfNoSlots.heap x).id = _
        rw [hheap, idOf],
      .inl (by
        show (u.stopServerServicesIfNoSlots.heap o).state = _
        rw [hheap, stateOf]), fun heq => (by cases heq), fun _ => hsame.lookup,
      fun c hc _ => hsame.bindings ▸ hc⟩
  | bindServers =>
    have hsame : SameInstances u u.runBindServers := runBindServers_same u
    have hheap : ∀ x, u.runBindServers.heap x = u.heap x := fun x => by rw [hsame.heap]
    exact ⟨fun y k hk => (hsame.lookup y).symm.trans hk, fun x => by
        show (u.runBindServers.heap x).id = _
        rw [hheap, idOf],
      .inl (by
        show (u.runBindServers.heap o).state = _
        rw [hheap, stateOf]), fun heq => (by cases heq), fun _ => hsame.lookup,
      fun c hc _ => hsame.bindings ▸ hc⟩

/-- **One block of the drain.** -/
theorem Draining.step {m : Nat} (h : Draining s o m u) (hs : Registry.step u .runPosted = some t) :
    Draining s o (m - 1) t ∧ (m = 0 → ∀ x, t.slots.lookup x = u.slots.lookup x) := by
  have hawake := awake_step h.awake hs
  obtain ⟨-, b, q, hq, rfl⟩ := of_step_runPosted hs
  set p : Registry := { u with queue := q } with hp
  have hmem : ∀ c ∈ q, c ∈ u.queue := fun c hc => hq ▸ List.mem_cons_of_mem b hc
  have hpop : Silent u p := .of_eq rfl rfl rfl rfl rfl rfl
  have hpa : Awake p := (Evolves.silent hpop : Evolves anything u p).awake h.awake
  have hd : Drained o b p (p.runBlock b) := runBlock_drained hpa h.unkeyed
    (h.unposted b (hq ▸ List.mem_cons_self))
  obtain ⟨k, hqueue, -⟩ := runBlock_queue (s := p) b
  have hlen : m - 1 ≤ q.length := by
    have := h.queue.1
    rw [hq, List.length_cons] at this
    omega
  refine ⟨⟨hawake, fun x i hx => ?_, fun c hc howner => h.bound c (hd.bindings c hc howner) howner,
    fun c hc i => ?_, ?_, ?_, fun c hc => ?_⟩, fun hm x => ?_⟩
  · rw [hd.id, hd.id]
    exact h.unkeyed x i (hd.lookup x i hx)
  · rw [hqueue, List.mem_append, List.mem_replicate] at hc
    rcases hc with hc | ⟨-, rfl⟩
    · exact h.unposted c (hmem c hc) i
    · nofun
  · rcases h.state with hidle | ⟨hstopping, hunbind⟩
    · rcases hd.state with hst | hst
      · exact .inl (hst.trans hidle)
      · exact .inl hst
    · rw [hq] at hunbind
      rcases List.mem_cons.mp hunbind with rfl | hunbind
      · exact .inl (hd.stopped rfl hstopping)
      · rcases hd.state with hst | hst
        · refine .inr ⟨hst.trans hstopping, ?_⟩
          rw [hqueue]
          exact List.mem_append_left _ hunbind
        · exact .inl hst
  · rw [hqueue, List.length_append]
    exact hlen.trans (Nat.le_add_right _ _)
  · rw [hqueue, List.drop_append_of_le_length hlen, List.mem_append, List.mem_replicate] at hc
    rcases hc with hc | ⟨-, rfl⟩
    · refine h.queue.2 c ?_
      rw [hq]
      cases m with
      | zero => exact List.mem_cons_of_mem b (List.mem_of_mem_drop hc)
      | succ m => exact hc
    · exact .inr rfl
  · refine hd.kept (h.queue.2 b ?_) x
    rw [hm, hq]
    exact List.mem_cons_self

/-- The whole drain, by the number of blocks run. -/
theorem Draining.posts {m n : Nat} (h : Draining s o m u) (hrun : Posts u n t) :
    Draining s o (m - n) t ∧ (m = 0 → ∀ x, t.slots.lookup x = u.slots.lookup x) := by
  induction n generalizing m u with
  | zero =>
    cases Option.some.inj hrun
    exact ⟨h, fun _ _ => rfl⟩
  | succ n ih =>
    obtain ⟨p, hp, hrest⟩ := run_cons_eq_some.mp hrun
    obtain ⟨hone, hslots⟩ := h.step hp
    obtain ⟨hall, hslots'⟩ := ih hone hrest
    refine ⟨by rwa [Nat.sub_sub, Nat.add_comm] at hall, fun hm x => ?_⟩
    rw [hslots' (by omega), hslots hm]

/-- **A missing directory.** The start of an idle object leaves the registry intact.
SOURCE: KlipperInstance.kt:46-92, 135-163 -/
theorem start_intact (hidle : s.stateOf o = .idle) {dirs : Dirs}
    (hdirs : ¬(dirs.directory ∧ dirs.publicDirectory)) (hfree : s.Unclaimed o)
    (hawake : Awake (s.start o dirs).1) : Intact s o (s.start o dirs).1 := by
  set t := (s.start o dirs).1 with ht
  have heq : t = ((s.notifyStateChanged o .starting).notifyStateChanged o .stopping).post
      (.unbind o) := by
    rcases start_cases s o dirs with ⟨hne, -⟩ | ⟨-, -, h⟩ | ⟨-, hdir, hpub, -⟩ |
      ⟨k, -, hdir, hpub, -⟩
    · exact absurd hidle hne
    · rw [ht, h, stop_eq _ _ (.inr (by simp [stateOf_notifyStateChanged]))]
    · exact absurd ⟨hdir, hpub⟩ hdirs
    · exact absurd ⟨hdir, hpub⟩ hdirs
  have hslots : t.slots = s.slots := by
    rw [heq]
    rfl
  have hqueue : t.queue = s.queue ++ [.unbind o] := by
    rw [heq]
    rfl
  have hid : ∀ x, t.idOf x = s.idOf x := fun x => by
    rw [heq]
    show ((s.notifyStateChanged o .starting).notifyStateChanged o .stopping).idOf x = _
    rw [idOf_notifyStateChanged, idOf_notifyStateChanged]
  have hstate : t.stateOf o = .stopping := by
    rw [heq]
    show ((s.notifyStateChanged o .starting).notifyStateChanged o .stopping).stateOf o = _
    rw [stateOf_notifyStateChanged, if_pos rfl]
  have hbindings : t.bindings = s.bindings := by
    rw [heq]
    rfl
  have hstart : Draining s o s.queue.length t := by
    refine ⟨hawake, fun x k hk => ?_, fun b hb _ => hbindings ▸ hb, fun b hb i => ?_,
      .inr ⟨hstate, ?_⟩, ?_, fun b hb => ?_⟩
    · rw [hid, hid]
      rw [hslots] at hk
      exact hfree.1 x ((mem_keys_iff_lookup x).mpr ⟨k, hk⟩)
    · rw [hqueue, List.mem_append, List.mem_singleton] at hb
      rcases hb with hb | rfl
      · exact hfree.2 b hb i
      · nofun
    · rw [hqueue]
      exact List.mem_append_right _ (List.mem_singleton_self _)
    · rw [hqueue, List.length_append]
      exact Nat.le_add_right _ _
    · rw [hqueue, List.drop_left, List.mem_singleton] at hb
      exact .inl hb
  refine ⟨hslots, fun n u hu hempty => ?_, fun n u v hu hempty hv x => ?_,
    fun n u hu b hb howner => (hstart.posts hu).1.bound b hb howner⟩
  · rcases (hstart.posts hu).1.state with hst | ⟨-, hmem⟩
    · exact hst
    · rw [hempty] at hmem
      exact absurd hmem List.not_mem_nil
  · -- the drain has run the blocks queued before the call
    have hlong : s.queue.length ≤ n := by
      have := (hstart.posts hu).1.queue.1
      rw [hempty, List.length_nil] at this
      omega
    obtain ⟨j, rfl⟩ := Nat.exists_eq_add_of_le hlong
    obtain ⟨w, hw, hrest⟩ := hu.split
    cases hv.unique hw
    have hmid := (hstart.posts hv).1
    rw [Nat.sub_self] at hmid
    exact (hmid.posts hrest).2 rfl x

/-! ## Room for a reload -/

/-- The registered object of a row is not idle, so that a reload takes its slot over. -/
def Taken (s : Registry) (i : String) : Prop := ∃ w ∈ s.registered i, s.stateOf w ≠ .idle

instance (i : String) : Decidable (s.Taken i) :=
  inferInstanceAs (Decidable (∃ w ∈ s.registered i, _))

/-- When a row is to be started, the keys a reload leaves, those it takes over and those it starts
fit into the slots. -/
def Room (s : Registry) (rows : List Row) (dirs : String → Dirs) : Prop :=
  (∃ row ∈ rows, s.Autostarts dirs row) →
    s.slots.keys.countP (fun x => s.idOf x ∈ rows.map Row.id ∧ s.registered (s.idOf x) ≠ some x) +
      rows.countP (fun row => s.Taken row.id) + rows.countP (fun row => s.Autostarts dirs row) ≤
        SLOTS_COUNT

instance (rows : List Row) (dirs : String → Dirs) : Decidable (s.Room rows dirs) :=
  inferInstanceAs (Decidable (_ → _))

/-- **The first loop** takes over the keys of the registered objects and no others. -/
theorem foldl_adoptRow_taken (db : Option (List Row)) (rest : List Oid) (ha : Awake s)
    (hlive : ∀ o ∈ rest, o < s.created) (hkey : ∀ o ∈ rest, s.slots.lookup o = none)
    (hidle : ∀ o ∈ rest, s.stateOf o = .idle) (hnodup : (rest.map s.idOf).Nodup) :
    let t := rest.foldl (adoptRow db) s
    (∀ x k, t.slots.lookup x = some k → (x ∈ rest ∧ s.Taken (s.idOf x)) ∨
      (x ∉ rest ∧ s.slots.lookup x = some k ∧ ∀ o ∈ rest, s.registered (s.idOf o) ≠ some x)) ∧
      (∀ o ∈ rest, t.stateOf o ≠ .idle ↔ s.Taken (s.idOf o)) ∧
      ∀ x < s.created, (t.heap x).autostart = (s.heap x).autostart := by
  induction rest generalizing s with
  | nil =>
    exact ⟨fun x k hk => .inr ⟨List.not_mem_nil, hk, fun o ho => (List.not_mem_nil ho).elim⟩,
      fun o ho => (List.not_mem_nil ho).elim, fun _ _ => rfl⟩
  | cons inst rest ih =>
    rw [List.map_cons, List.nodup_cons] at hnodup
    have hinst := hlive inst List.mem_cons_self
    have hone := adoptRow_key ha hinst (hkey inst List.mem_cons_self)
      (hidle inst List.mem_cons_self) db
    have hne : ∀ o ∈ rest, o ≠ inst := by
      rintro o ho rfl
      exact hnodup.1 (List.mem_map_of_mem ho)
    have hrest : ∀ o ∈ rest, o < s.created := fun o ho => hlive o (List.mem_cons_of_mem _ ho)
    have hids : rest.map (adoptRow db s inst).idOf = rest.map s.idOf :=
      List.map_congr_left fun o ho => hone.id o (hrest o ho)
    have hrest' : ∀ o ∈ rest, o < (adoptRow db s inst).created := fun o ho =>
      (hrest o ho).trans_le hone.created
    have hkey' : ∀ o ∈ rest, (adoptRow db s inst).slots.lookup o = none := fun o ho =>
      hone.none o (hne o ho) (hkey o (List.mem_cons_of_mem _ ho))
    have hidle' : ∀ o ∈ rest, (adoptRow db s inst).stateOf o = .idle := fun o ho => by
      rw [hone.state o (hrest o ho) (hne o ho)]
      exact hidle o (List.mem_cons_of_mem _ ho)
    have hnodup' : (rest.map (adoptRow db s inst).idOf).Nodup := by
      rw [hids]
      exact hnodup.2
    obtain ⟨hkeys, htaken, hauto⟩ := ih hone.awake hrest' hkey' hidle' hnodup'
    obtain ⟨-, -, -, -, hsame, -⟩ :=
      foldl_adoptRow_key db rest hone.awake hrest' hkey' hidle' hnodup'
    -- the round before changes neither the index nor the states of the rows to come
    have hindex : ∀ o ∈ rest, (adoptRow db s inst).Taken ((adoptRow db s inst).idOf o) ↔
        s.Taken (s.idOf o) := by
      intro o ho
      have hother : ∀ w, s.registered (s.idOf o) = some w →
          (adoptRow db s inst).stateOf w = s.stateOf w := by
        intro w hw
        obtain ⟨hlt, hid⟩ := ha.indexed.registered hw
        refine hone.state w hlt ?_
        rintro rfl
        exact hnodup.1 (List.mem_map.mpr ⟨o, ho, hid.symm⟩)
      rw [hone.id o (hrest o ho)]
      rcases hone.registered (s.idOf o) with hreg | ⟨hnone, w, hw, hge, hlt⟩
      · constructor
        · rintro ⟨w, hw, hst⟩
          rw [hreg] at hw
          exact ⟨w, hw, by rwa [hother w hw] at hst⟩
        · rintro ⟨w, hw, hst⟩
          exact ⟨w, hreg.trans hw, by rwa [hother w hw]⟩
      · constructor
        · rintro ⟨w', hw', hst⟩
          cases hw.symm.trans hw'
          exact absurd (hone.fresh w hge hlt) hst
        · rintro ⟨w', hw', -⟩
          cases hnone.symm.trans hw'
    rw [List.foldl_cons]
    refine ⟨fun x k hk => ?_, fun o ho => ?_, fun x hx => ?_⟩
    · rcases hkeys x k hk with ⟨hx, ht⟩ | ⟨hx, hk', hreg⟩
      · exact .inl ⟨List.mem_cons_of_mem _ hx, (hindex x hx).mp ht⟩
      · rcases hone.key x k hk' with ⟨rfl, ht⟩ | ⟨hxi, hk', hregi⟩
        · exact .inl ⟨List.mem_cons_self, ht⟩
        · refine .inr ⟨?_, hk', fun o ho hregx => ?_⟩
          · rw [List.mem_cons, not_or]
            exact ⟨hxi, hx⟩
          · rcases List.mem_cons.mp ho with rfl | ho
            · exact hregi hregx
            · refine hreg o ho ?_
              rw [hone.id o (hrest o ho)]
              rcases hone.registered (s.idOf o) with hsame | ⟨hnone, -⟩
              · exact hsame.trans hregx
              · cases hnone.symm.trans hregx
    · rcases List.mem_cons.mp ho with rfl | ho
      · have hst := (hsame o (hinst.trans_le hone.created) (fun hmem => hne o hmem rfl)
          (by rw [hids, hone.id o hinst]; exact hnodup.1)).1
        rw [hst]
        exact hone.taken
      · exact (htaken o ho).trans (hindex o ho)
    · rw [hauto x (hx.trans_le hone.created), hone.autostart x hx]

/-- **The second loop** leaves keys of loaded ids only. -/
theorem foldl_dropMissing_keys (ids : List String) (ks : List Oid) {x : Oid} {k : Int}
    (hk : (ks.foldl (dropMissing ids) s).slots.lookup x = some k) :
    s.slots.lookup x = some k ∧ (x ∈ ks → s.idOf x ∈ ids) := by
  induction ks generalizing s with
  | nil => exact ⟨hk, fun hx => (List.not_mem_nil hx).elim⟩
  | cons was ks ih =>
    obtain ⟨hround, hx⟩ := ih hk
    unfold dropMissing at hround hx
    split at hround
    · next hmem =>
      rw [if_pos hmem] at hx
      refine ⟨hround, fun hxs => ?_⟩
      rcases List.mem_cons.mp hxs with rfl | hxs
      · exact hmem
      · exact hx hxs
    · next hmem =>
      rw [if_neg hmem, (Local.stop _).id] at hx
      rw [stop_slots] at hround
      have hne : x ≠ was := by
        rintro rfl
        rw [AList.lookup_erase] at hround
        cases hround
      rw [AList.lookup_erase_ne hne] at hround
      exact ⟨hround, fun hxs => hx ((List.mem_cons.mp hxs).resolve_left hne)⟩

/-- The autostart loop starts the object, and finds its directories. -/
def Starts (s : Registry) (dirs : String → Dirs) (o : Oid) : Prop :=
  (s.heap o).autostart = true ∧ s.stateOf o = .idle ∧ (dirs (s.idOf o)).directory = true ∧
    (dirs (s.idOf o)).publicDirectory = true

instance (dirs : String → Dirs) (o : Oid) : Decidable (s.Starts dirs o) :=
  inferInstanceAs (Decidable (_ ∧ _))

/-- A start with both directories and a free slot. -/
theorem start_started {dirs : Dirs} (hidle : s.stateOf o = .idle) (hdir : dirs.directory = true)
    (hpub : dirs.publicDirectory = true) (hfree : s.slots.keys.length < SLOTS_COUNT) :
    (s.start o dirs).1.stateOf o = .starting ∧ ∃ k, (s.start o dirs).1.slots.lookup o = some k := by
  rcases start_cases s o dirs with ⟨hne, -⟩ | ⟨-, hmiss, -⟩ | ⟨-, -, -, hnone, -⟩ |
    ⟨k, -, -, -, -, heq⟩
  · exact absurd hidle hne
  · exact absurd ⟨hdir, hpub⟩ hmiss
  · exact absurd hnone (pickSlot_ne_none hfree)
  · rw [heq]
    refine ⟨?_, k, AList.lookup_insert _⟩
    show ((s.notifyStateChanged o .starting).modify o fun i => { i with slot := k }).stateOf o = _
    rw [stateOf, modify_heap, Function.update_self]
    show (s.notifyStateChanged o .starting).stateOf o = _
    rw [stateOf_notifyStateChanged, if_pos rfl]

/-- `start` comes back unless both directories are there and no slot is free. -/
theorem start_returned {dirs : Dirs}
    (hfree : dirs.directory = true ∧ dirs.publicDirectory = true →
      s.slots.keys.length < SLOTS_COUNT) : (s.start o dirs).2 = .returned := by
  rcases start_cases s o dirs with ⟨-, heq⟩ | ⟨-, -, heq⟩ | ⟨-, hdir, hpub, hnone, -⟩ |
    ⟨k, -, -, -, -, heq⟩
  · rw [heq]
  · rw [heq]
  · exact absurd hnone (pickSlot_ne_none (hfree ⟨hdir, hpub⟩))
  · rw [heq]

/-- **The autostart loop** comes to its end while there are slots, and starts every row it
is meant to start.
SOURCE: KlipperInstance.kt:284-290 -/
theorem autostartAll_starts (dirs : String → Dirs) (rest : List Oid)
    (hnodup : (rest.map s.idOf).Nodup)
    (hroom : (∃ o ∈ rest, s.Starts dirs o) →
      s.slots.keys.length + rest.countP (fun o => s.Starts dirs o) ≤ SLOTS_COUNT) :
    (autostartAll dirs s rest).2 = .returned ∧
      (∀ o ∈ rest, s.Starts dirs o → (autostartAll dirs s rest).1.stateOf o = .starting ∧
        ∃ k, (autostartAll dirs s rest).1.slots.lookup o = some k) ∧
      ∀ x, s.idOf x ∉ rest.map s.idOf → (autostartAll dirs s rest).1.stateOf x = s.stateOf x ∧
        (autostartAll dirs s rest).1.slots.lookup x = s.slots.lookup x := by
  induction rest generalizing s with
  | nil => exact ⟨rfl, fun o ho => (List.not_mem_nil ho).elim, fun _ _ => ⟨rfl, rfl⟩⟩
  | cons inst rest ih =>
    rw [List.map_cons, List.nodup_cons] at hnodup
    rw [List.countP_cons] at hroom
    unfold autostartAll
    split
    · next hauto =>
      have hl := Local.start (s := s) inst (dirs (s.idOf inst))
      have hkeys := start_keys (s := s) inst (dirs (s.idOf inst))
      have hfree : (dirs (s.idOf inst)).directory = true ∧
          (dirs (s.idOf inst)).publicDirectory = true → s.slots.keys.length < SLOTS_COUNT := by
        rintro ⟨hdir, hpub⟩
        have hstarts : s.Starts dirs inst := ⟨hauto.1, hauto.2, hdir, hpub⟩
        have hroom := hroom ⟨inst, List.mem_cons_self, hstarts⟩
        rw [if_pos (decide_eq_true hstarts)] at hroom
        lia
      have hreturned := start_returned (s := s) (o := inst) hfree
      have hstarted := fun hdir hpub => start_started hauto.2 hdir hpub (hfree ⟨hdir, hpub⟩)
      rcases hrun : s.start inst (dirs (s.idOf inst)) with ⟨t, outcome⟩
      rw [hrun] at hl hkeys hreturned hstarted
      subst hreturned
      have hother : ∀ o ∈ rest, s.idOf o ∉ ({s.idOf inst} : Set String) := fun o ho hsame =>
        hnodup.1 (List.mem_map.mpr ⟨o, ho, hsame⟩)
      have hids : rest.map t.idOf = rest.map s.idOf := List.map_congr_left fun o _ => hl.id o
      have hsame : ∀ o ∈ rest, t.Starts dirs o ↔ s.Starts dirs o := fun o ho => by
        rw [Starts, Starts, hl.id, stateOf, hl.heap o (hother o ho), stateOf]
      have hcount : rest.countP (fun o => t.Starts dirs o) =
          rest.countP (fun o => s.Starts dirs o) :=
        List.countP_congr fun o ho => by simp [hsame o ho]
      obtain ⟨hend, hall, hframe⟩ := ih (s := t) (by rw [hids]; exact hnodup.2) (by
        rintro ⟨o, ho, hstarts⟩
        have hroom := hroom ⟨o, List.mem_cons_of_mem inst ho, (hsame o ho).mp hstarts⟩
        rw [hcount]
        simp only [Starts, hauto.1, hauto.2, true_and, decide_eq_true_eq] at hroom hkeys ⊢
        lia)
      refine ⟨hend, fun o ho hstarts => ?_, fun x hx => ?_⟩
      · rcases List.mem_cons.mp ho with rfl | ho
        · obtain ⟨hst, k, hk⟩ := hstarted hstarts.2.2.1 hstarts.2.2.2
          obtain ⟨hst', hk'⟩ := hframe o (by rw [hids, hl.id]; exact hnodup.1)
          exact ⟨hst'.trans hst, k, hk'.trans hk⟩
        · exact hall o ho ((hsame o ho).mpr hstarts)
      · rw [List.map_cons, List.mem_cons, not_or] at hx
        obtain ⟨hst, hk⟩ := hframe x (by rw [hids, hl.id]; exact hx.2)
        refine ⟨hst.trans ?_, hk.trans (hl.lookup x hx.1)⟩
        rw [stateOf, hl.heap x hx.1, stateOf]
    · next hauto =>
      obtain ⟨hend, hall, hframe⟩ := ih hnodup.2 (by
        rintro ⟨o, ho, hstarts⟩
        exact (Nat.add_le_add_left (Nat.le_add_right _ _) _).trans
          (hroom ⟨o, List.mem_cons_of_mem inst ho, hstarts⟩))
      refine ⟨hend, fun o ho hstarts => ?_, fun x hx => ?_⟩
      · rcases List.mem_cons.mp ho with rfl | ho
        · exact absurd ⟨hstarts.1, hstarts.2.1⟩ hauto
        · exact hall o ho hstarts
      · rw [List.map_cons, List.mem_cons, not_or] at hx
        exact hframe x hx.2

/-- A load changes nothing about the registered object of a row. -/
theorem Loaded.taken {rows : List Row} {os : List Oid} (h : Loaded s rows t os) (ha : Awake s)
    (i : String) : t.Taken i ↔ s.Taken i := by
  have hstate : ∀ w, s.registered i = some w → t.stateOf w = s.stateOf w := fun w hw => by
    rw [stateOf, h.heap w (ha.indexed.registered hw).1, stateOf]
  unfold Taken
  rw [h.registered ha.indexed]
  refine exists_congr fun w => and_congr_right fun hw => ?_
  rw [hstate w hw]

/-- The rows of a load and its objects are counted alike. -/
theorem Loaded.countP {rows : List Row} {os : List Oid} (h : Loaded s rows t os)
    (p : Row → Bool) : os.countP (fun o => p (t.heap o).toRow) = rows.countP p := by
  have hobjects := congrArg (List.countP fun i : KlipperInstance => p i.toRow) h.objects
  rw [List.countP_map, List.countP_map] at hobjects
  exact hobjects

/-- **The first two loops** leave the keys of the load's objects, and those of loaded ids that
were not their id's registered object. -/
theorem Loaded.keys_le {rows : List Row} {os : List Oid} (h : Loaded s rows t os) (ha : Awake s)
    (hnodup : (rows.map Row.id).Nodup) (db : Option (List Row)) (ks : List Oid)
    (hks : ∀ x ∈ (os.foldl (adoptRow db) t).slots.keys, x ∈ ks) :
    (ks.foldl (dropMissing (os.map (os.foldl (adoptRow db) t).idOf))
      (os.foldl (adoptRow db) t)).slots.keys.length ≤
      s.slots.keys.countP (fun x => s.idOf x ∈ rows.map Row.id ∧ s.registered (s.idOf x) ≠ some x) +
        rows.countP (fun row => s.Taken row.id) := by
  have hlive : ∀ o ∈ os, o < t.created := fun o ho => (h.range o ho).2
  have hids : (os.map t.idOf).Nodup := by
    rw [h.ids]
    exact hnodup
  obtain ⟨-, -, hid₁, -, -, -⟩ := foldl_adoptRow_key db os (h.awake ha) hlive
    (fun o ho => h.noKey ha ho) (fun o ho => h.idle ho) hids
  obtain ⟨hkeys₁, -, -⟩ := foldl_adoptRow_taken db os (h.awake ha) hlive
    (fun o ho => h.noKey ha ho) (fun o ho => h.idle ho) hids
  set s₁ := os.foldl (adoptRow db) t
  have hkeys₂ := fun x k => foldl_dropMissing_keys (s := s₁) (os.map s₁.idOf) ks
    (x := x) (k := k)
  set s₂ := ks.foldl (dropMissing (os.map s₁.idOf)) s₁
  rw [← h.countP, List.countP_eq_length_filter, List.countP_eq_length_filter,
    ← List.length_append]
  refine (List.subperm_of_subset s₂.slots.keys_nodup fun x hx => ?_).length_le
  obtain ⟨k, hk⟩ := (mem_keys_iff_lookup x).mp hx
  obtain ⟨hk₁, hid⟩ := hkeys₂ x k hk
  rcases hkeys₁ x k hk₁ with ⟨hxs, ht⟩ | ⟨hxs, hk₀, hreg⟩
  · refine List.mem_append_right _ (List.mem_filter.mpr ⟨hxs, ?_⟩)
    exact decide_eq_true ((h.taken ha _).mp ht)
  · rw [h.eq] at hk₀
    have hlt := ha.live x k hk₀
    have hidx : t.idOf x = s.idOf x := by rw [idOf, h.heap x hlt, idOf]
    have hidx₁ : s₁.idOf x = s.idOf x := (hid₁ x (hlt.trans_le h.created)).trans hidx
    have hloaded : s.idOf x ∈ os.map t.idOf := by
      rw [← List.map_congr_left fun o ho => hid₁ o (hlive o ho), ← hidx₁]
      exact hid (hks x ((mem_keys_iff_lookup x).mpr ⟨k, hk₁⟩))
    refine List.mem_append_left _ (List.mem_filter.mpr
      ⟨(mem_keys_iff_lookup x).mpr ⟨k, hk₀⟩, decide_eq_true ⟨by rwa [h.ids] at hloaded, ?_⟩⟩)
    obtain ⟨o, ho, hoid⟩ := List.mem_map.mp hloaded
    rw [← hoid, ← h.registered ha.indexed]
    exact hreg o ho

/-- **A reload with room** comes to its end and starts its autostart rows.
SOURCE: KlipperInstance.kt:249-291 -/
theorem reload_starts (ha : Awake s) {rows : List Row} {os : List Oid} (hload : Loaded s rows t os)
    (hnodup : (rows.map Row.id).Nodup) (db : Option (List Row)) (hash : Oid → Nat)
    {dirs : String → Dirs} (hroom : s.Room rows dirs) :
    (t.onInstancesLoadedFromDB os db hash dirs).2 = .returned ∧
      ∀ o ∈ os, s.Autostarts dirs (t.heap o).toRow →
        (t.onInstancesLoadedFromDB os db hash dirs).1.stateOf o = .starting ∧
          o ∈ (t.onInstancesLoadedFromDB os db hash dirs).1.slots.keys := by
  have hta := hload.awake ha
  have hlive : ∀ o ∈ os, o < t.created := fun o ho => (hload.range o ho).2
  have hids : (os.map t.idOf).Nodup := by
    rw [hload.ids]
    exact hnodup
  obtain ⟨ha₁, -, hid₁, -, -, -⟩ := foldl_adoptRow_key db os hta hlive
    (fun o ho => hload.noKey ha ho) (fun o ho => hload.idle ho) hids
  obtain ⟨-, hstate₁, hauto₁⟩ := foldl_adoptRow_taken db os hta hlive
    (fun o ho => hload.noKey ha ho) (fun o ho => hload.idle ho) hids
  have hcount := fun ks => hload.keys_le ha hnodup db ks
  set s₁ := os.foldl (adoptRow db) t
  set ks := s₁.slots.keys.insertionSort fun a b => hash a ≤ hash b with hks
  have hcount := hcount ks fun x hx => by rwa [hks, List.mem_insertionSort]
  obtain ⟨-, -, -, hid₂, hkeep₂⟩ := foldl_dropMissing_key (os.map s₁.idOf) ks ha₁
  set s₂ := ks.foldl (dropMissing (os.map s₁.idOf)) s₁
  have hrun : t.onInstancesLoadedFromDB os db hash dirs =
      autostartAll dirs (s₂.refresh os) os := rfl
  have hids₁ : os.map s₁.idOf = os.map t.idOf :=
    List.map_congr_left fun o ho => hid₁ o (hlive o ho)
  have hids₂ : os.map (s₂.refresh os).idOf = os.map t.idOf := by
    rw [← hids₁]
    exact List.map_congr_left fun o _ => hid₂ o
  -- an object of the load that the autostart loop starts comes from a row it is meant for
  have hstarts : ∀ o ∈ os, (s₂.refresh os).Starts dirs o ↔ s.Autostarts dirs (t.heap o).toRow := by
    intro o ho
    have hheap : (s₂.refresh os).heap o = s₁.heap o :=
      (hkeep₂ o (List.mem_map_of_mem ho)).1
    have hid : (s₂.refresh os).idOf o = t.idOf o := by
      rw [idOf, hheap]
      exact hid₁ o (hlive o ho)
    have hst : (s₂.refresh os).stateOf o = .idle ↔ ¬s.Taken (t.idOf o) := by
      rw [stateOf, hheap, ← hload.taken ha]
      exact (not_iff_not.mpr (hstate₁ o ho)).symm.trans not_not |>.symm
    rw [Starts, Autostarts, hid, hst, hheap, hauto₁ o (hlive o ho)]
    refine and_congr_right fun _ => and_congr_left fun _ => ?_
    simp only [Taken, not_exists, not_and, not_not]
    rfl
  have hstarting : os.countP (fun o => (s₂.refresh os).Starts dirs o) =
      rows.countP (fun row => s.Autostarts dirs row) := by
    rw [← hload.countP]
    exact List.countP_congr fun o ho => by simp only [hstarts o ho]
  obtain ⟨hend, hall, -⟩ := autostartAll_starts (s := s₂.refresh os) dirs os
    (by rw [hids₂]; exact hids) (by
      rintro ⟨o, ho, hauto⟩
      obtain ⟨row, hrow, heq⟩ := List.mem_map.mp (hload.objects ▸ List.mem_map_of_mem ho)
      have hstart : s.Autostarts dirs row := by
        have hauto := (hstarts o ho).mp hauto
        rw [← heq] at hauto
        exact hauto
      rw [hstarting]
      exact (Nat.add_le_add_right hcount _).trans (hroom ⟨row, hrow, hstart⟩))
  rw [hrun]
  refine ⟨hend, fun o ho hauto => ?_⟩
  obtain ⟨hst, hlookup⟩ := hall o ho ((hstarts o ho).mpr hauto)
  exact ⟨hst, (mem_keys_iff_lookup o).mpr hlookup⟩

/-! ## Runs -/

/-- What `start` cannot do without. -/
def CannotProceed (s : Registry) (dirs : Dirs) : Prop :=
  ¬(dirs.directory ∧ dirs.publicDirectory) ∨ pickSlot s.slots = none

instance (dirs : Dirs) : Decidable (s.CannotProceed dirs) := inferInstanceAs (Decidable (_ ∨ _))

/-- **Failed starts.** In every reachable state, the start of an idle object for which a
directory is missing leaves the registry intact, if nothing has claimed the object's id,
and the handler drains afterwards; and a reload with room comes to its end and starts every
row it is meant to start.
SOURCE: KlipperInstance.kt:46-92, 249-291 -/
theorem failed_start_intact {acts : List Action} (hrun : run step empty acts = some s) :
    (∀ o < s.created, ∀ dirs : Dirs, s.stateOf o = .idle →
      ¬(dirs.directory ∧ dirs.publicDirectory) → s.Unclaimed o →
        Intact s o (s.start o dirs).1 ∧
          ∃ n u, Posts (s.start o dirs).1 n u ∧ (u.queue = [] ∨ u.crashed = true)) ∧
    ∀ rows db hash dirs, (rows.map Row.id).Nodup → s.Room rows dirs →
      let t := (s.loadRows rows).1
      let r := t.onInstancesLoadedFromDB (s.loadRows rows).2 db hash dirs
      r.2 = .returned ∧ ∀ o ∈ (s.loadRows rows).2, s.Autostarts dirs (t.heap o).toRow →
        r.1.stateOf o = .starting ∧ o ∈ r.1.slots.keys := by
  have ha : Awake s := run_invariant (fun _ _ _ h hs => awake_step h hs) awake_empty hrun
  constructor
  · intro o ho dirs hidle hdirs hfree
    have hevolves : Evolves anything s (s.start o dirs).1 :=
      evolves_start ho dirs (fun _ _ => trivial) fun _ _ => trivial
    exact ⟨start_intact hidle hdirs hfree (hevolves.awake ha), drains _⟩
  · intro rows db hash dirs hnodup hroom
    exact reload_starts ha (loadRows_spec s rows) hnodup db hash hroom

/-- One printer runs and the other has been stopped; its unbind block is still queued. -/
def stoppedAgain : List Action :=
  [reloadOf twoRows, .runPosted, .runPosted, startOf 0, .runPosted, .stop 1, .runPosted]

/-- In this run the stopped printer is started again while its public directory cannot be
made, and then the rows are loaded again. -/
theorem failed_start_intact_two_printers :
    ∃ s, run step empty stoppedAgain = some s ∧ s.queue = [.stopServers, .stopServers] ∧
      Intact s 1 (s.start 1 ⟨true, false⟩).1 ∧
      ((s.loadRows twoRows).1.onInstancesLoadedFromDB (s.loadRows twoRows).2 none id
        fun _ => ⟨true, true⟩).2 = .returned := by
  have hrun : (run step empty stoppedAgain).any (fun s =>
      s.queue = [.stopServers, .stopServers] ∧ 1 < s.created ∧ s.stateOf 1 = .idle ∧
        (∀ x ∈ s.slots.keys, s.idOf x ≠ s.idOf 1) ∧
          s.Room twoRows fun _ => ⟨true, true⟩) = true := by
    decide +kernel
  obtain ⟨s, hs, hlast⟩ := (Option.any_eq_true _ _).mp hrun
  obtain ⟨hq, hcreated, hidle, hkeys, hroom⟩ := of_decide_eq_true hlast
  refine ⟨s, hs, hq, ((failed_start_intact hs).1 1 hcreated ⟨true, false⟩ hidle (by decide)
    ⟨hkeys, fun b hb i => ?_⟩).1, ((failed_start_intact hs).2 twoRows none id _ (by decide)
      hroom).1⟩
  rw [hq] at hb
  simp only [List.mem_cons, List.not_mem_nil, or_false, or_self] at hb
  subst hb
  nofun

/-- Eleven rows, all but the last with autostart. -/
def elevenRows (last : Bool) : List Row :=
  (List.range 11).map fun i =>
    ⟨String.ofList (List.replicate i 'x'), "printer", "PRINTER", i < 10 || last⟩

/-- With ten slots in use `start` throws, and the instance stays `STARTING` for good; in the
autostart loop the exception leaves the load.
SOURCE: KlipperInstance.kt:50-92, 284-290 -/
theorem failed_start_not_intact :
    (¬∀ acts s, run step empty acts = some s → ∀ o < s.created, ∀ dirs : Dirs,
      s.stateOf o = .idle → s.CannotProceed dirs →
        ∀ n u, Posts (s.start o dirs).1 n u → u.queue = [] → u.stateOf o = .idle) ∧
    ¬∀ acts s, run step empty acts = some s → ∀ rows db hash dirs, (rows.map Row.id).Nodup →
      ((s.loadRows rows).1.onInstancesLoadedFromDB (s.loadRows rows).2 db hash dirs).2 =
        .returned := by
  constructor
  · intro h
    have hrun : (run step empty ([reloadOf (elevenRows false)] ++
        List.replicate 11 .runPosted)).any (fun s => 10 < s.created ∧ s.stateOf 10 = .idle ∧
          s.CannotProceed ⟨true, true⟩ ∧ (s.start 10 ⟨true, true⟩).1.queue = [] ∧
            (s.start 10 ⟨true, true⟩).1.stateOf 10 = .starting) = true := by
      decide +kernel
    obtain ⟨s, hs, hlast⟩ := (Option.any_eq_true _ _).mp hrun
    obtain ⟨hcreated, hidle, hcannot, hqueue, hstarting⟩ := of_decide_eq_true hlast
    have hidle' := h _ s hs 10 hcreated _ hidle hcannot 0 _ rfl hqueue
    cases hidle'.symm.trans hstarting
  · intro h
    have hthrew : ((empty.loadRows (elevenRows true)).1.onInstancesLoadedFromDB
        (empty.loadRows (elevenRows true)).2 none id fun _ => ⟨true, true⟩).2 = .threw := by
      decide +kernel
    have hreturned := h [] empty rfl (elevenRows true) none id (fun _ => ⟨true, true⟩)
      (by decide +kernel)
    cases hthrew.symm.trans hreturned

end Cream.Model.Registry
