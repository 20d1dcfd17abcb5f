import Cream.Analysis.SlotExclusivity

/-!
# What `stop` releases

An object `o` is followed through a run. As long as no disconnect callback reaches `o` it
holds the connection of every binding it has made, so the block `stop` posts ends all of
them (`stop_releases`). The first disconnect callback breaks this for good: it forgets the
connection, the binding stays, and no later step of `o` can end it.

`Elsewhere o s t` is a step that is not about `o`, and `Accounted s o` the invariant.
-/

set_option autoImplicit false

namespace Cream.Model

open Cream.Library.Transition

namespace Registry

variable {s t u : Registry} {o : Oid}

/-- The queued blocks about an object. -/
def blocksOf (s : Registry) (o : Oid) : List Block := s.queue.filter fun b => b.object? = some o

/-- Nothing has been done with the object. -/
structure Unused (s : Registry) (o : Oid) : Prop where
  blocks : s.blocksOf o = []
  bindings : ∀ b ∈ s.bindings, b.owner ≠ o
  key : s.slots.lookup o = none

/-- The invariant of one object: it holds what it has bound, it binds only once, and it is
never idle with something bound or about to be bound. -/
structure Accounted (s : Registry) (o : Oid) : Prop where
  fresh : s.created ≤ o → s.Unused o
  held : ∀ b ∈ s.bindings, b.owner = o → ((s.heap o).link b.svc).connection = some b.conn
  both : ∀ b ∈ s.bindings, b.owner = o → ∀ svc, ((s.heap o).link svc).connection.isSome
  idle_free : s.stateOf o = .idle →
    (∀ b ∈ s.bindings, b.owner ≠ o) ∧ ∀ b ∈ s.blocksOf o, b.bound? = none
  /-- of the blocks about the object only the first may be a bind block -/
  first : ∀ b q, s.blocksOf o = b :: q → ∀ c ∈ q, c.bound? = none
  alone : ∀ b ∈ s.blocksOf o, b.bound? ≠ none → ∀ c ∈ s.bindings, c.owner ≠ o
  /-- an unbind block leaves the object idle -/
  ends_idle : .unbind o ∈ s.queue → s.stateOf o = .running ∨ s.stateOf o = .starting →
    ∀ svc, ((s.heap o).link svc).connection.isSome
  key_active : ∀ k, s.slots.lookup o = some k → s.stateOf o ≠ .idle

/-- A step that is not about the object. -/
structure Elsewhere (o : Oid) (s t : Registry) : Prop where
  created : s.created ≤ t.created
  heap : t.heap o = s.heap o
  key : ∀ k, t.slots.lookup o = some k → s.slots.lookup o = some k
  blocks : t.blocksOf o = s.blocksOf o
  bindings : ∀ b ∈ t.bindings, b.owner = o →
    ∃ c ∈ s.bindings, c.owner = o ∧ c.conn = b.conn ∧ c.svc = b.svc

/-- The blocks of an object are the queued ones about it. -/
theorem mem_blocksOf {b : Block} : b ∈ s.blocksOf o ↔ b ∈ s.queue ∧ b.object? = some o := by
  simp [blocksOf]

/-- Without a step nothing happens to the object. -/
theorem Elsewhere.refl (o : Oid) (s : Registry) : Elsewhere o s s :=
  ⟨le_rfl, rfl, fun _ h => h, rfl, fun b hb hown => ⟨b, hb, hown, rfl, rfl⟩⟩

/-- Two steps that happen elsewhere do together. -/
theorem Elsewhere.trans (h : Elsewhere o s t) (h' : Elsewhere o t u) : Elsewhere o s u where
  created := h.created.trans h'.created
  heap := h'.heap.trans h.heap
  key k hk := h.key k (h'.key k hk)
  blocks := h'.blocks.trans h.blocks
  bindings b hb hown := by
    obtain ⟨c, hc, hcown, hconn, hsvc⟩ := h'.bindings b hb hown
    obtain ⟨d, hd, hdown, hconn', hsvc'⟩ := h.bindings c hc hcown
    exact ⟨d, hd, hdown, hconn'.trans hconn, hsvc'.trans hsvc⟩

/-- What happens elsewhere leaves an unused object unused. -/
theorem Unused.elsewhere (h : s.Unused o) (he : Elsewhere o s t) : t.Unused o where
  blocks := he.blocks.trans h.blocks
  bindings b hb hown := by
    obtain ⟨c, hc, hcown, -⟩ := he.bindings b hb hown
    exact h.bindings c hc hcown
  key := by
    cases hk : t.slots.lookup o with
    | none => rfl
    | some k =>
      have hs := he.key k hk
      rw [h.key] at hs
      cases hs

/-- Whatever its fields say, an object nothing has been done with is accounted for. -/
theorem Unused.accounted (h : s.Unused o) : s.Accounted o where
  fresh _ := h
  held b hb hown := absurd hown (h.bindings b hb)
  both b hb hown := absurd hown (h.bindings b hb)
  idle_free _ := ⟨h.bindings, fun b hb => by
    rw [h.blocks] at hb
    exact (List.not_mem_nil hb).elim⟩
  first b q hq := by
    rw [h.blocks] at hq
    cases hq
  alone _ _ _ := h.bindings
  ends_idle hmem _ := by
    have hb : .unbind o ∈ s.blocksOf o := mem_blocksOf.mpr ⟨hmem, rfl⟩
    rw [h.blocks] at hb
    exact (List.not_mem_nil hb).elim
  key_active k hk := by
    rw [h.key] at hk
    cases hk

/-- **The invariant does not see what happens elsewhere.** -/
theorem Accounted.elsewhere (h : s.Accounted o) (he : Elsewhere o s t) : t.Accounted o := by
  have hst : t.stateOf o = s.stateOf o := by rw [stateOf, he.heap, stateOf]
  have hnone : (∀ b ∈ s.bindings, b.owner ≠ o) → ∀ b ∈ t.bindings, b.owner ≠ o := by
    intro hs b hb hown
    obtain ⟨c, hc, hcown, -⟩ := he.bindings b hb hown
    exact hs c hc hcown
  constructor
  case fresh => exact fun hge => (h.fresh (he.created.trans hge)).elsewhere he
  case held =>
    intro b hb hown
    obtain ⟨c, hc, hcown, hconn, hsvc⟩ := he.bindings b hb hown
    rw [he.heap, ← hsvc, ← hconn]
    exact h.held c hc hcown
  case both =>
    intro b hb hown
    obtain ⟨c, hc, hcown, -⟩ := he.bindings b hb hown
    rw [he.heap]
    exact h.both c hc hcown
  case idle_free =>
    intro hidle
    obtain ⟨hb, hq⟩ := h.idle_free (hst ▸ hidle)
    rw [he.blocks]
    exact ⟨hnone hb, hq⟩
  case first =>
    rw [he.blocks]
    exact h.first
  case alone =>
    rw [he.blocks]
    exact fun b hb hbound => hnone (h.alone b hb hbound)
  case ends_idle =>
    intro hmem hup
    have hb : .unbind o ∈ t.blocksOf o := mem_blocksOf.mpr ⟨hmem, rfl⟩
    rw [he.blocks] at hb
    rw [he.heap]
    exact h.ends_idle (mem_blocksOf.mp hb).1 (hst ▸ hup)
  case key_active =>
    intro k hk
    rw [hst]
    exact h.key_active k (he.key k hk)

/-! ## Steps about other objects -/

/-- Blocks about other objects are not among those of the object. -/
theorem blocksOf_append {p : List Block} (hq : t.queue = s.queue ++ p)
    (hp : ∀ b ∈ p, b.object? ≠ some o) : t.blocksOf o = s.blocksOf o := by
  unfold blocksOf
  rw [hq, List.filter_append]
  have hnil : p.filter (fun b => b.object? = some o) = [] := by
    rw [List.filter_eq_nil_iff]
    intro b hb
    simpa using hp b hb
  rw [hnil, List.append_nil]

/-- A change of another object happens elsewhere. -/
theorem Elsewhere.modify {x : Oid} (hx : x ≠ o) (f : KlipperInstance → KlipperInstance) :
    Elsewhere o s (s.modify x f) where
  created := le_rfl
  heap := Function.update_of_ne (Ne.symm hx) _ _
  key _ h := h
  blocks := rfl
  bindings b hb hown := ⟨b, hb, hown, rfl, rfl⟩

/-- So does posting a block that is not about the object. -/
theorem Elsewhere.post {b : Block} (hb : b.object? ≠ some o) : Elsewhere o s (s.post b) where
  created := le_rfl
  heap := rfl
  key _ h := h
  blocks := blocksOf_append rfl fun c hc => by
    rw [List.mem_singleton] at hc
    exact hc ▸ hb
  bindings b hb hown := ⟨b, hb, hown, rfl, rfl⟩

/-- The announcement of another object happens elsewhere. -/
theorem Elsewhere.notifyStateChanged {x : Oid} (hx : x ≠ o) (st : State) :
    Elsewhere o s (s.notifyStateChanged x st) where
  created := le_of_eq (notifyStateChanged_created s x st).symm
  heap := by rw [notifyStateChanged_heap, Function.update_of_ne (Ne.symm hx)]
  key k hk := by
    rw [lookup_notifyStateChanged] at hk
    split at hk
    · cases hk
    · exact hk
  blocks := by
    refine blocksOf_append (notifyStateChanged_queue s x st) fun b hb => ?_
    cases st <;> simp [notifyBlocks] at hb <;> subst hb <;> simp [Block.object?]
  bindings b hb hown := by
    rw [notifyStateChanged_bindings] at hb
    exact ⟨b, hb, hown, rfl, rfl⟩

/-- `stop` of another object does. -/
theorem Elsewhere.stop {x : Oid} (hx : x ≠ o) : Elsewhere o s (s.stop x) := by
  by_cases hst : s.stateOf x = .running ∨ s.stateOf x = .starting
  · rw [stop_eq s x hst]
    have hpost : (Block.unbind x).object? ≠ some o := by
      simpa [Block.object?] using hx
    exact (Elsewhere.notifyStateChanged hx .stopping).trans (.post hpost)
  · rw [stop_eq_self s x hst]
    exact .refl o s

/-- `start` of another object does. -/
theorem Elsewhere.start {x : Oid} (hx : x ≠ o) (dirs : Dirs) :
    Elsewhere o s (s.start x dirs).1 := by
  have hstarting : Elsewhere o s (s.notifyStateChanged x .starting) :=
    .notifyStateChanged hx .starting
  have hslot : ∀ k, Elsewhere o s
      ((s.notifyStateChanged x .starting).modify x fun i => { i with slot := k }) :=
    fun k => hstarting.trans (.modify hx _)
  rcases start_cases s x dirs with ⟨-, heq⟩ | ⟨-, -, heq⟩ | ⟨-, -, -, -, heq⟩ |
    ⟨k, -, -, -, -, heq⟩
  · rw [heq]
    exact .refl o s
  · rw [heq]
    exact hstarting.trans (.stop hx)
  · rw [heq]
    exact hslot (-1)
  · rw [heq]
    have hpost : (Block.bind x (s.idOf x)).object? ≠ some o := by
      simpa [Block.object?] using hx
    refine Elsewhere.trans ?_ (.post hpost)
    have hk := hslot k
    refine ⟨hk.created, hk.heap, fun l hl => ?_, hk.blocks, hk.bindings⟩
    have hl : (s.slots.insert x k).lookup o = some l := hl
    rw [AList.lookup_insert_ne (Ne.symm hx)] at hl
    exact hl

/-- What the instances do not see happens elsewhere. -/
theorem Elsewhere.same (h : SameInstances s t) : Elsewhere o s t where
  created := le_of_eq h.created.symm
  heap := by rw [h.heap]
  key k hk := by rwa [h.lookup] at hk
  blocks := by rw [blocksOf, h.queue, blocksOf]
  bindings b hb hown := by
    rw [h.bindings] at hb
    exact ⟨b, hb, hown, rfl, rfl⟩

/-- Stopping the servers does. -/
theorem Elsewhere.stopServers : Elsewhere o s s.stopServerServicesIfNoSlots := by
  have hclear : Elsewhere o s { s with slots := ∅ } :=
    ⟨le_rfl, rfl, fun k hk => by simp at hk, rfl, fun b hb hown => ⟨b, hb, hown, rfl, rfl⟩⟩
  have hweb : ∀ t : Registry, Elsewhere o t t.stopWebServer := by
    intro t
    unfold stopWebServer
    split
    · exact .refl o t
    · exact .same (.of_eq rfl rfl le_rfl)
  have hcamera : ∀ t : Registry, Elsewhere o t t.stopCameraServer := by
    intro t
    unfold stopCameraServer
    split
    · exact .refl o t
    · exact .same (.of_eq rfl rfl le_rfl)
  rw [stopServers_eq]
  split
  · exact .refl o s
  · exact (hclear.trans (hweb _)).trans (hcamera _)

/-- So does marking a binding as connected. -/
theorem Elsewhere.setConnected (c : Conn) (v : Bool) : Elsewhere o s (s.setConnected c v) where
  created := le_rfl
  heap := rfl
  key _ h := h
  blocks := rfl
  bindings b hb hown := by
    obtain ⟨d, hd, rfl⟩ := List.mem_map.mp hb
    refine ⟨d, hd, ?_⟩
    by_cases hc : d.conn = c
    · rw [if_pos hc] at hown ⊢
      exact ⟨hown, rfl, rfl⟩
    · rw [if_neg hc] at hown ⊢
      exact ⟨hown, rfl, rfl⟩

/-- A service of another object that comes up does. -/
theorem Elsewhere.onServiceConnected {b : Binding} (hb : b.owner ≠ o) :
    Elsewhere o s (s.onServiceConnected b) := by
  have hlink : Elsewhere o s ((s.setConnected b.conn true).modifyLink b.owner b.svc
      fun l => { l with connected := true }) :=
    (Elsewhere.setConnected b.conn true).trans (.modify hb _)
  unfold Registry.onServiceConnected
  simp only
  split
  · exact hlink.trans (.notifyStateChanged hb .running)
  · exact hlink

/-- One that is lost does. -/
theorem Elsewhere.onServiceDisconnected {b : Binding} (hb : b.owner ≠ o) :
    Elsewhere o s (s.onServiceDisconnected b) := by
  have hlink : Elsewhere o s ((s.setConnected b.conn false).modifyLink b.owner b.svc
      fun l => { l with connection := none, connected := false }) :=
    (Elsewhere.setConnected b.conn false).trans (.modify hb _)
  unfold Registry.onServiceDisconnected
  rw [onUnbound_eq]
  split
  · exact hlink
  · exact hlink.trans (.notifyStateChanged hb .idle)

/-- Taking a block about another object, or about the servers, off the queue. -/
theorem Elsewhere.pop {b : Block} {q : List Block} (hq : s.queue = b :: q)
    (hb : b.object? ≠ some o) : Elsewhere o s { s with queue := q } where
  created := le_rfl
  heap := rfl
  key _ h := h
  blocks := by
    unfold blocksOf
    rw [hq, List.filter_cons_of_neg (by simpa using hb)]
  bindings b hb hown := ⟨b, hb, hown, rfl, rfl⟩

/-- The block of `start` of another object does. -/
theorem Elsewhere.runBind {x : Oid} (hx : x ≠ o) (n : String) : Elsewhere o s (s.runBind x n) := by
  by_cases hservice : HasService (s.heap x).slot
  · rw [runBind_eq s x n hservice]
    refine ⟨le_rfl, Function.update_of_ne (Ne.symm hx) _ _, fun _ h => h, rfl, ?_⟩
    intro b hb hown
    simp only [List.mem_append, List.mem_cons, List.not_mem_nil, or_false] at hb
    rcases hb with hb | rfl | rfl
    · exact ⟨b, hb, hown, rfl, rfl⟩
    · exact absurd hown hx
    · exact absurd hown hx
  · unfold Registry.runBind
    rw [if_neg hservice]
    exact ⟨le_rfl, rfl, fun _ h => h, rfl, fun b hb hown => ⟨b, hb, hown, rfl, rfl⟩⟩

/-- The block of `stop` of another object does. -/
theorem Elsewhere.runUnbind {x : Oid} (hx : x ≠ o) : Elsewhere o s (s.runUnbind x) := by
  obtain ⟨hrel, -, hbind⟩ := runUnbind_spec (s := s) (o := x)
  constructor
  case created => exact le_of_eq hrel.created.symm
  case heap => exact hrel.heap_ne o (Ne.symm hx)
  case key =>
    intro k hk
    rcases hrel.state with ⟨-, hl⟩ | ⟨-, hl⟩
    · rwa [hl] at hk
    · rw [hl] at hk
      split at hk
      · cases hk
      · exact hk
  case blocks =>
    obtain ⟨n, hn⟩ := hrel.queue
    refine blocksOf_append hn fun b hb => ?_
    rw [List.eq_of_mem_replicate hb]
    simp [Block.object?]
  case bindings =>
    intro b hb hown
    rw [hbind] at hb
    exact ⟨b, (List.mem_filter.mp hb).1, hown, rfl, rfl⟩

/-! ## Steps of the object itself -/

/-- A block about the object is its last one when it is posted. -/
theorem blocksOf_post {b : Block} (hb : b.object? = some o) :
    (s.post b).blocksOf o = s.blocksOf o ++ [b] := by
  unfold blocksOf
  rw [post_queue, List.filter_append, List.filter_cons_of_pos (by simpa using hb)]
  rfl

/-- A block about the object was its first one when it is taken. -/
theorem blocksOf_pop {b : Block} {q : List Block} (hq : s.queue = b :: q)
    (hb : b.object? = some o) :
    s.blocksOf o = b :: ({ s with queue := q } : Registry).blocksOf o := by
  unfold blocksOf
  rw [hq, List.filter_cons_of_pos (by simpa using hb)]

/-- `stop` posts the unbind block after all blocks of the object.
SOURCE: KlipperInstance.kt:135-140 -/
theorem Accounted.stop (h : s.Accounted o) (ho : o < s.created) : (s.stop o).Accounted o := by
  by_cases hst : s.stateOf o = .running ∨ s.stateOf o = .starting
  swap
  · rw [stop_eq_self s o hst]
    exact h
  rw [stop_eq s o hst]
  set t := (s.notifyStateChanged o .stopping).post (.unbind o) with ht
  have hheap : t.heap o = { s.heap o with state := .stopping } := by
    rw [ht, post_heap, notifyStateChanged_heap, Function.update_self]
  have hstate : t.stateOf o = .stopping := by rw [stateOf, hheap]
  have hbind : t.bindings = s.bindings := notifyStateChanged_bindings s o .stopping
  have hnotify : (s.notifyStateChanged o .stopping).blocksOf o = s.blocksOf o :=
    blocksOf_append (notifyStateChanged_queue s o .stopping) fun b hb => by cases hb
  have hblocks : t.blocksOf o = s.blocksOf o ++ [.unbind o] := by
    rw [ht, blocksOf_post rfl, hnotify]
  constructor
  case fresh =>
    intro hge
    exact absurd ho (Nat.not_lt.mpr hge)
  case held =>
    rw [hbind, hheap]
    exact h.held
  case both =>
    rw [hbind, hheap]
    exact h.both
  case idle_free =>
    intro hidle
    rw [hstate] at hidle
    cases hidle
  case first =>
    intro b q hq c hc
    rw [hblocks] at hq
    cases hs : s.blocksOf o with
    | nil =>
      rw [hs, List.nil_append, List.cons.injEq] at hq
      rw [← hq.2] at hc
      cases hc
    | cons b' q' =>
      rw [hs, List.cons_append, List.cons.injEq] at hq
      rw [← hq.2, List.mem_append, List.mem_singleton] at hc
      rcases hc with hc | rfl
      · exact h.first b' q' hs c hc
      · rfl
  case alone =>
    intro b hb hbound
    rw [hblocks, List.mem_append, List.mem_singleton] at hb
    rw [hbind]
    rcases hb with hb | rfl
    · exact h.alone b hb hbound
    · exact absurd rfl hbound
  case ends_idle =>
    intro _ hup
    rw [hstate] at hup
    rcases hup with hup | hup <;> cases hup
  case key_active =>
    intro k _
    rw [hstate]
    decide

/-- An object with nothing bound or queued is accounted for, whatever its fields say. -/
theorem Accounted.of_unbound (ho : o < s.created)
    (hkey : ∀ k, s.slots.lookup o = some k → s.stateOf o ≠ .idle)
    (hb : ∀ b ∈ s.bindings, b.owner ≠ o) (hq : s.blocksOf o = []) : s.Accounted o where
  fresh hge := absurd ho (Nat.not_lt.mpr hge)
  held b hmem hown := absurd hown (hb b hmem)
  both b hmem hown := absurd hown (hb b hmem)
  idle_free _ := ⟨hb, fun b hmem => by
    rw [hq] at hmem
    cases hmem⟩
  first b q hbq := by
    rw [hq] at hbq
    cases hbq
  alone _ _ _ := hb
  ends_idle hmem _ := by
    have hmem' : .unbind o ∈ s.blocksOf o := mem_blocksOf.mpr ⟨hmem, rfl⟩
    rw [hq] at hmem'
    cases hmem'
  key_active := hkey

/-- An idle object with no unbind block has nothing bound and nothing queued. -/
theorem Accounted.idle (h : s.Accounted o) (hidle : s.stateOf o = .idle)
    (hno : .unbind o ∉ s.queue) : (∀ b ∈ s.bindings, b.owner ≠ o) ∧ s.blocksOf o = [] := by
  obtain ⟨hb, hq⟩ := h.idle_free hidle
  refine ⟨hb, List.eq_nil_iff_forall_not_mem.mpr fun b hmem => ?_⟩
  have hbound := hq b hmem
  obtain ⟨hmemq, hobj⟩ := mem_blocksOf.mp hmem
  cases b with
  | bind x n => cases hbound
  | unbind x =>
    simp only [Block.object?, Option.some.injEq] at hobj
    subst hobj
    exact hno hmemq
  | stopServers => cases hobj
  | bindServers => cases hobj

/-- `start` of an object with no unbind block queued.
SOURCE: KlipperInstance.kt:46-133 -/
theorem Accounted.start (h : s.Accounted o) (ho : o < s.created) (dirs : Dirs)
    (hno : .unbind o ∉ s.queue) : (s.start o dirs).1.Accounted o := by
  rcases start_cases s o dirs with ⟨-, heq⟩ | ⟨hidle, -, heq⟩ | ⟨hidle, -, -, -, heq⟩ |
    ⟨k, hidle, -, -, -, heq⟩
  · rw [heq]
    exact h
  all_goals
    rw [heq]
    obtain ⟨hb, hq⟩ := h.idle hidle hno
    set u := s.notifyStateChanged o .starting with hu
    have hucreated : u.created = s.created := notifyStateChanged_created s o .starting
    have hubind : u.bindings = s.bindings := notifyStateChanged_bindings s o .starting
    have hublocks : u.blocksOf o = [] := by
      rw [← hq]
      exact blocksOf_append (notifyStateChanged_queue s o .starting) fun b hb => by cases hb
    have hust : u.stateOf o = .starting := by
      rw [hu, stateOf_notifyStateChanged, if_pos rfl]
  · have hactive : u.Accounted o :=
      .of_unbound (hucreated ▸ ho) (fun _ _ => by rw [hust]; decide) (hubind ▸ hb) hublocks
    exact hactive.stop (hucreated ▸ ho)
  · have hst : (u.modify o fun i => { i with slot := -1 }).stateOf o = .starting := by
      rw [stateOf, modify_heap, Function.update_self]
      exact hust
    exact .of_unbound (hucreated ▸ ho) (fun _ _ => by rw [hst]; decide) (hubind ▸ hb) hublocks
  · set v := u.modify o fun i => { i with slot := k } with hv
    set t : Registry := { v with slots := s.slots.insert o k }.post (.bind o (s.idOf o)) with ht
    have hst : t.stateOf o = .starting := by
      rw [ht, stateOf, post_heap]
      rw [hv, modify_heap, Function.update_self]
      exact hust
    have htblocks : t.blocksOf o = [.bind o (s.idOf o)] := by
      rw [ht, blocksOf_post rfl]
      have hsame : ({ v with slots := s.slots.insert o k } : Registry).blocksOf o = u.blocksOf o :=
        rfl
      rw [hsame, hublocks, List.nil_append]
    have htb : ∀ b ∈ t.bindings, b.owner ≠ o := hubind ▸ hb
    constructor
    case fresh => exact fun hge => absurd ho (Nat.not_lt.mpr (hucreated ▸ hge))
    case held => exact fun b hmem hown => absurd hown (htb b hmem)
    case both => exact fun b hmem hown => absurd hown (htb b hmem)
    case idle_free =>
      intro hidle
      rw [hst] at hidle
      cases hidle
    case first =>
      intro b q hbq c hc
      rw [htblocks, List.cons.injEq] at hbq
      rw [← hbq.2] at hc
      cases hc
    case alone => exact fun _ _ _ => htb
    case ends_idle =>
      intro hmem
      have hmem' : .unbind o ∈ t.blocksOf o := mem_blocksOf.mpr ⟨hmem, rfl⟩
      rw [htblocks, List.mem_singleton] at hmem'
      cases hmem'
    case key_active =>
      intro _ _
      rw [hst]
      decide

/-- The block of `start` makes the bindings of its object, which had none.
SOURCE: KlipperInstance.kt:93-132 -/
theorem Accounted.runBind (h : s.Accounted o) (ho : o < s.created) {n : String} {q : List Block}
    (hq : s.queue = .bind o n :: q) :
    (({ s with queue := q } : Registry).runBind o n).Accounted o := by
  have hblocks := blocksOf_pop hq (o := o) rfl
  set p : Registry := { s with queue := q } with hp
  have hhead : .bind o n ∈ s.blocksOf o := hblocks ▸ List.mem_cons_self
  have hrest : ∀ c ∈ p.blocksOf o, c.bound? = none := h.first _ _ hblocks
  have hnone : ∀ c ∈ s.bindings, c.owner ≠ o := h.alone _ hhead fun hbound => by cases hbound
  have hactive : s.stateOf o ≠ .idle := by
    intro hidle
    have hbound := (h.idle_free hidle).2 _ hhead
    cases hbound
  have hunbind : .unbind o ∈ q → .unbind o ∈ s.queue := fun hmem =>
    hq ▸ List.mem_cons_of_mem _ hmem
  by_cases hservice : HasService (p.heap o).slot
  · obtain ⟨t, ht⟩ : ∃ t, t = p.runBind o n := ⟨_, rfl⟩
    rw [← ht]
    have hself := runBind_self p o n hservice
    rw [← ht, hp] at hself
    rw [runBind_eq p o n hservice] at ht
    have hst : t.stateOf o = s.stateOf o := by rw [stateOf, hself, stateOf]
    have htblocks : t.blocksOf o = p.blocksOf o := by
      rw [ht]
      rfl
    have hsome : ∀ svc, ((t.heap o).link svc).connection.isSome := by
      intro svc
      rw [hself]
      rfl
    have hheld : ∀ b ∈ t.bindings, b.owner = o →
        ((t.heap o).link b.svc).connection = some b.conn := by
      intro b hb hown
      rw [ht] at hb
      simp only [List.mem_append, List.mem_cons, List.not_mem_nil, or_false] at hb
      rcases hb with hb | rfl | rfl
      · exact absurd hown (hnone b hb)
      · rw [hself]
      · rw [hself]
    have hslots : t.slots = s.slots := by rw [ht]
    constructor
    case fresh =>
      intro hge
      rw [ht] at hge
      exact absurd ho (Nat.not_lt.mpr hge)
    case held => exact hheld
    case both => exact fun _ _ _ => hsome
    case idle_free =>
      intro hidle
      exact absurd (hst ▸ hidle) hactive
    case first =>
      intro b r hr c hc
      rw [htblocks] at hr
      exact hrest c (hr ▸ List.mem_cons_of_mem _ hc)
    case alone =>
      intro b hb hbound
      rw [htblocks] at hb
      exact absurd (hrest b hb) hbound
    case ends_idle => exact fun _ _ => hsome
    case key_active =>
      intro k _
      rw [hst]
      exact hactive
  · -- the exception leaves everything else as it is
    have hrun : p.runBind o n = { p with crashed := true } := by
      unfold Registry.runBind
      rw [if_neg hservice]
    rw [hrun]
    constructor
    case fresh => exact fun hge => absurd ho (Nat.not_lt.mpr hge)
    case held => exact h.held
    case both => exact h.both
    case idle_free => exact fun hidle => absurd hidle hactive
    case first =>
      intro b r hr c hc
      have hr : p.blocksOf o = b :: r := hr
      exact hrest c (hr ▸ List.mem_cons_of_mem _ hc)
    case alone => exact fun b hb hbound => absurd (hrest b hb) hbound
    case ends_idle => exact fun hmem => h.ends_idle (hunbind hmem)
    case key_active => exact h.key_active

/-- What the block of `stop` leaves of its object. -/
structure Released (s : Registry) (o : Oid) : Prop where
  idle : s.stateOf o = .idle
  bindings : ∀ b ∈ s.bindings, b.owner ≠ o
  key : s.slots.lookup o = none

/-- **The block of `stop` releases everything** its object has bound.
SOURCE: KlipperInstance.kt:140-163 -/
theorem Accounted.runUnbind (h : s.Accounted o) (ho : o < s.created) {q : List Block}
    (hq : s.queue = .unbind o :: q) :
    (({ s with queue := q } : Registry).runUnbind o).Accounted o ∧
      (({ s with queue := q } : Registry).runUnbind o).Released o := by
  have hblocks := blocksOf_pop hq (o := o) rfl
  set p : Registry := { s with queue := q } with hp
  obtain ⟨hrel, hlink, hbind⟩ := runUnbind_spec (s := p) (o := o)
  have hidle : (p.runUnbind o).stateOf o = .idle := by
    have hmem : .unbind o ∈ s.queue := hq ▸ List.mem_cons_self
    cases hst : p.stateOf o with
    | idle =>
      rcases hrel.state with ⟨hsame, -⟩ | ⟨hidle, -⟩
      · exact hsame.trans hst
      · exact hidle
    | starting => exact runUnbind_idle (.inr (h.ends_idle hmem (.inr hst)))
    | running => exact runUnbind_idle (.inr (h.ends_idle hmem (.inl hst)))
    | stopping => exact runUnbind_idle (.inl hst)
  set t := p.runUnbind o with ht
  have hnone : ∀ b ∈ t.bindings, b.owner ≠ o := by
    intro b hb hown
    rw [hbind] at hb
    obtain ⟨hmem, hno⟩ := List.mem_filter.mp hb
    exact of_decide_eq_true hno ⟨_, h.held b hmem hown⟩
  have hkey : t.slots.lookup o = none := by
    rcases hrel.state with ⟨hsame, hl⟩ | ⟨-, hl⟩
    · rw [hl]
      cases hk : p.slots.lookup o with
      | none => rfl
      | some k => exact absurd (hsame.symm.trans hidle) (h.key_active k hk)
    · rw [hl, if_pos rfl]
  have htblocks : t.blocksOf o = p.blocksOf o := by
    obtain ⟨n, hn⟩ := hrel.queue
    refine blocksOf_append hn fun b hb => ?_
    rw [List.eq_of_mem_replicate hb]
    simp [Block.object?]
  have hrest : ∀ c ∈ t.blocksOf o, c.bound? = none := by
    rw [htblocks]
    exact h.first _ _ hblocks
  refine ⟨?_, hidle, hnone, hkey⟩
  constructor
  case fresh => exact fun hge => absurd ho (Nat.not_lt.mpr (hrel.created ▸ hge))
  case held => exact fun b hb hown => absurd hown (hnone b hb)
  case both => exact fun b hb hown => absurd hown (hnone b hb)
  case idle_free => exact fun _ => ⟨hnone, hrest⟩
  case first =>
    intro b r hr c hc
    exact hrest c (hr ▸ List.mem_cons_of_mem _ hc)
  case alone => exact fun _ _ _ => hnone
  case ends_idle =>
    intro _ hup
    rw [hidle] at hup
    rcases hup with hup | hup <;> cases hup
  case key_active =>
    intro k hk
    rw [hkey] at hk
    cases hk

/-- `onServiceConnected` of one of the object's own bindings.
SOURCE: KlipperInstance.kt:99-104, 118-123 -/
theorem Accounted.onServiceConnected (h : s.Accounted o) {b : Binding} (hb : b ∈ s.bindings)
    (hown : b.owner = o) : (s.onServiceConnected b).Accounted o := by
  subst hown
  have hconn := s.connection_onServiceConnected b
  have hstate := s.stateOf_onServiceConnected b
  set u := (s.setConnected b.conn true).modifyLink b.owner b.svc
    fun l => { l with connected := true }
  have hrun : s.onServiceConnected b =
      if ((u.heap b.owner).link b.svc.other).connected then
        u.notifyStateChanged b.owner .running else u := rfl
  obtain ⟨t, ht⟩ : ∃ t, t = s.onServiceConnected b := ⟨_, rfl⟩
  rw [← ht] at hconn hstate ⊢
  rw [hrun] at ht
  have hactive : t.stateOf b.owner ≠ .idle := by
    rw [hstate]
    split
    · exact nofun
    · exact fun hidle => (h.idle_free hidle).1 b hb rfl
  have hbind : t.bindings = (s.setConnected b.conn true).bindings := by
    rw [ht]
    split
    · rw [notifyStateChanged_bindings]
      rfl
    · rfl
  have hcreated : t.created = s.created := by
    rw [ht]
    split
    · rw [notifyStateChanged_created]
      rfl
    · rfl
  have hblocks : t.blocksOf b.owner = s.blocksOf b.owner := by
    rw [ht]
    split
    · refine (blocksOf_append (notifyStateChanged_queue u b.owner .running) fun c hc => ?_).trans rfl
      rw [notifyBlocks, List.mem_singleton] at hc
      subst hc
      simp [Block.object?]
    · rfl
  have hsame : ∀ c ∈ t.bindings, c.owner = b.owner →
      ∃ d ∈ s.bindings, d.owner = b.owner ∧ d.conn = c.conn ∧ d.svc = c.svc := by
    rw [hbind]
    exact (Elsewhere.setConnected b.conn true).bindings
  constructor
  case fresh =>
    intro hge
    exact absurd rfl ((h.fresh (hcreated ▸ hge)).bindings b hb)
  case held =>
    intro c hc hcown
    obtain ⟨d, hd, hdown, hdconn, hdsvc⟩ := hsame c hc hcown
    rw [hconn, ← hdsvc, ← hdconn]
    exact h.held d hd hdown
  case both =>
    intro c hc hcown svc
    rw [hconn]
    exact h.both b hb rfl svc
  case idle_free => exact fun hidle => absurd hidle hactive
  case first =>
    rw [hblocks]
    exact h.first
  case alone =>
    rw [hblocks]
    intro c hc hbound
    exact absurd rfl (h.alone c hc hbound b hb)
  case ends_idle =>
    intro _ _ svc
    rw [hconn]
    exact h.both b hb rfl svc
  case key_active => exact fun _ _ => hactive

/-! ## A reload -/

/-- Loading the rows leaves an unused object unused. -/
theorem Unused.loaded {rows : List Row} {os : List Oid} (h : Loaded s rows t os)
    (hun : s.Unused o) : t.Unused o := by
  rw [h.eq]
  exact ⟨hun.blocks, hun.bindings, hun.key⟩

/-- Loading rows is elsewhere, or concerns an object nothing has been done with. -/
theorem Accounted.loaded {rows : List Row} {os : List Oid} (h : s.Accounted o)
    (hload : Loaded s rows t os) : t.Accounted o := by
  by_cases ho : o < s.created
  · refine h.elsewhere ⟨hload.created, hload.heap o ho, ?_, ?_, ?_⟩
    · rw [hload.eq]
      exact fun _ hk => hk
    · rw [hload.eq]
      rfl
    · rw [hload.eq]
      exact fun b hb hown => ⟨b, hb, hown, rfl, rfl⟩
  · exact (Unused.loaded hload (h.fresh (Nat.not_lt.mp ho))).accounted

/-- What `getInstance` may change: it loads rows, and the companion's references. -/
theorem getInstance_cases (i : String) (db : Option (List Row)) :
    ∃ t rows os, Loaded s rows t os ∧ (s.getInstance i db).1 = { t with
      instances := (s.getInstance i db).1.instances
      instanceMap := (s.getInstance i db).1.instanceMap } := by
  have hself : Loaded s [] s [] := loadRows_spec s []
  have hmap := instanceMapGet_eq (s := s) i
  unfold getInstance
  rcases hget : s.instanceMapGet i with ⟨u, r⟩
  rw [hget] at hmap
  have hu : u = { s with instances := s.instances, instanceMap := u.instanceMap } := hmap
  cases r with
  | some x =>
    refine ⟨s, [], [], hself, ?_⟩
    simp only
    rw [hu]
  | none =>
    cases db with
    | none =>
      refine ⟨s, [], [], hself, ?_⟩
      simp only
      rw [hu]
    | some rows =>
      have hus : u = s := by
        have hnone : s.registered i = none := by
          unfold registered
          rw [hget]
        have hsame := instanceMapGet_none hnone
        rw [hget] at hsame
        exact congrArg Prod.fst hsame
      subst hus
      refine ⟨_, rows, _, loadRows_spec u rows, ?_⟩
      simp only
      split <;> rfl

/-- **One round of the adoption loop** accounts for the object, also for the one it fills. -/
theorem Accounted.adoptRow (h : s.Accounted o) (db : Option (List Row)) {inst : Oid}
    (hinst : inst = o → s.Unused o ∧ o < s.created) : (adoptRow db s inst).Accounted o ∧
      (inst ≠ o → s.Unused o → (Registry.adoptRow db s inst).Unused o) ∧
      (Registry.adoptRow db s inst).blocksOf o = s.blocksOf o := by
  obtain ⟨t, rows, os, hload, heq⟩ := getInstance_cases (s := s) (s.idOf inst) db
  have hblocks : t.blocksOf o = s.blocksOf o := by
    rw [hload.eq]
    rfl
  unfold Registry.adoptRow
  rcases hget : s.getInstance (s.idOf inst) db with ⟨u, r⟩
  rw [hget] at heq
  have hu : u = { t with instances := u.instances, instanceMap := u.instanceMap } := heq
  have htu : Elsewhere o t u := by
    rw [hu]
    exact ⟨le_rfl, rfl, fun _ hk => hk, rfl, fun b hb hown => ⟨b, hb, hown, rfl, rfl⟩⟩
  have hau : u.Accounted o := (h.loaded hload).elsewhere htu
  have hub : u.blocksOf o = s.blocksOf o := htu.blocks.trans hblocks
  have hun : s.Unused o → u.Unused o := fun hs => (Unused.loaded hload hs).elsewhere htu
  cases r with
  | none => exact ⟨hau, fun _ => hun, hub⟩
  | some was =>
    simp only
    have hadopt := adopt_eq u inst was
    have hlook := lookup_adopt u inst was o
    have hab : (u.adopt inst was).blocksOf o = u.blocksOf o := by
      rw [hadopt]
      rfl
    have helse : inst ≠ o → Elsewhere o u (u.adopt inst was) := by
      intro hne
      constructor
      case created => rw [hadopt]
      case heap =>
        rw [hadopt]
        exact Function.update_of_ne (Ne.symm hne) _ _
      case key =>
        intro k hk
        rw [hlook, if_neg (by simp [Ne.symm hne])] at hk
        split at hk
        · cases hk
        · exact hk
      case blocks => exact hab
      case bindings =>
        rw [hadopt]
        exact fun b hb hown => ⟨b, hb, hown, rfl, rfl⟩
    refine ⟨?_, fun hne hs => (hun hs).elsewhere (helse hne), hab.trans hub⟩
    by_cases hne : inst = o
    · -- the new object has nothing bound, whatever fields it takes over
      subst hne
      obtain ⟨hs, hlt⟩ := hinst rfl
      have hsu := hun hs
      refine .of_unbound ?_ ?_ ?_ (hab.trans hsu.blocks)
      · rw [hadopt]
        exact hlt.trans_le (hload.created.trans htu.created)
      · intro k hk
        have hst : (u.adopt inst was).stateOf inst = u.stateOf was := by
          rw [stateOf, hadopt]
          simp
        rw [hst]
        intro hidle
        rw [hlook, if_neg (by simp [hidle])] at hk
        split at hk
        · cases hk
        · rw [hsu.key] at hk
          cases hk
      · rw [hadopt]
        exact hsu.bindings
    · exact hau.elsewhere (helse hne)

/-- A round of the adoption loop removes no object. -/
theorem adoptRow_created (db : Option (List Row)) (inst : Oid) :
    s.created ≤ (adoptRow db s inst).created := by
  obtain ⟨t, rows, os, hload, heq⟩ := getInstance_cases (s := s) (s.idOf inst) db
  unfold adoptRow
  rcases hget : s.getInstance (s.idOf inst) db with ⟨u, r⟩
  rw [hget] at heq
  have hu : u = { t with instances := u.instances, instanceMap := u.instanceMap } := heq
  have hle : s.created ≤ u.created := by
    rw [hu]
    exact hload.created
  cases r with
  | none => exact hle
  | some was =>
    simp only
    rw [adopt_eq]
    exact hle

/-- Without a block about the object it has no unbind block. -/
theorem not_mem_of_blocksOf_nil (h : s.blocksOf o = []) : .unbind o ∉ s.queue := by
  intro hmem
  have hb : .unbind o ∈ s.blocksOf o := mem_blocksOf.mpr ⟨hmem, rfl⟩
  rw [h] at hb
  cases hb

/-- The adoption loop leaves the object's blocks as they are. -/
theorem Accounted.adoptAll (h : s.Accounted o) (db : Option (List Row)) (os : List Oid)
    (hnodup : os.Nodup) (hun : o ∈ os → s.Unused o ∧ o < s.created) :
    (os.foldl (Registry.adoptRow db) s).Accounted o ∧
      (os.foldl (Registry.adoptRow db) s).blocksOf o = s.blocksOf o ∧
      s.created ≤ (os.foldl (Registry.adoptRow db) s).created := by
  induction os generalizing s with
  | nil => exact ⟨h, rfl, le_rfl⟩
  | cons inst os ih =>
    rw [List.nodup_cons] at hnodup
    obtain ⟨hacc, hkeep, hblocks⟩ := h.adoptRow db
      fun he : inst = o => hun (he ▸ List.mem_cons_self)
    have hle := adoptRow_created (s := s) db inst
    have hnext : o ∈ os → (Registry.adoptRow db s inst).Unused o ∧
        o < (Registry.adoptRow db s inst).created := by
      intro ho
      obtain ⟨hs, hlt⟩ := hun (List.mem_cons_of_mem _ ho)
      have hne : inst ≠ o := by
        rintro rfl
        exact hnodup.1 ho
      exact ⟨hkeep hne hs, hlt.trans_le hle⟩
    obtain ⟨hacc', hblocks', hle'⟩ := ih hacc hnodup.2 hnext
    exact ⟨hacc', hblocks'.trans hblocks, hle.trans hle'⟩

/-- The drop loop may stop the object, unless its id is still loaded. -/
theorem Accounted.dropAll (h : s.Accounted o) (ids : List String) (ks : List Oid)
    (hlive : o ∈ ks → o < s.created) :
    (ks.foldl (dropMissing ids) s).Accounted o ∧
      (s.idOf o ∈ ids → (ks.foldl (dropMissing ids) s).blocksOf o = s.blocksOf o) ∧
      (ks.foldl (dropMissing ids) s).created = s.created := by
  induction ks generalizing s with
  | nil => exact ⟨h, fun _ => rfl, rfl⟩
  | cons was ks ih =>
    rw [List.foldl_cons]
    by_cases hmem : s.idOf was ∈ ids
    · have hsame : dropMissing ids s was = s := by
        unfold dropMissing
        rw [if_pos hmem]
      rw [hsame]
      exact ih h fun ho => hlive (List.mem_cons_of_mem _ ho)
    · set p : Registry := { s with slots := s.slots.erase was } with hp
      have hdrop : dropMissing ids s was = p.stop was := by
        unfold dropMissing
        rw [if_neg hmem]
      rw [hdrop]
      have herase : Elsewhere o s p := by
        refine ⟨le_rfl, rfl, fun k hk => ?_, rfl, fun b hb hown => ⟨b, hb, hown, rfl, rfl⟩⟩
        have hk : (s.slots.erase was).lookup o = some k := hk
        by_cases hw : o = was
        · subst hw
          simp at hk
        · rwa [AList.lookup_erase_ne hw] at hk
      have hlocal := Local.stop (s := p) was
      have hp' := h.elsewhere herase
      have hstop : (p.stop was).Accounted o := by
        by_cases hw : was = o
        · subst hw
          exact hp'.stop (hlive List.mem_cons_self)
        · exact hp'.elsewhere (.stop hw)
      obtain ⟨hacc, hblocks, hcreated⟩ := ih hstop fun ho => by
        rw [hlocal.created]
        exact hlive (List.mem_cons_of_mem _ ho)
      refine ⟨hacc, fun hid => ?_, hcreated.trans hlocal.created⟩
      have hne : was ≠ o := by
        rintro rfl
        exact hmem hid
      rw [hblocks (by rwa [hlocal.id])]
      exact (Elsewhere.stop hne).blocks

/-- The autostart loop may start the object. -/
theorem Accounted.autostart (h : s.Accounted o) (dirs : String → Dirs) (os : List Oid)
    (hnodup : os.Nodup) (hfree : o ∈ os → o < s.created ∧ s.blocksOf o = []) :
    (autostartAll dirs s os).1.Accounted o := by
  induction os generalizing s with
  | nil => exact h
  | cons inst os ih =>
    rw [List.nodup_cons] at hnodup
    have hskip := ih h hnodup.2 fun ho => hfree (List.mem_cons_of_mem _ ho)
    unfold autostartAll
    split
    · have hstart : (s.start inst (dirs (s.idOf inst))).1.Accounted o := by
        by_cases hne : inst = o
        · subst hne
          obtain ⟨hlt, hblocks⟩ := hfree List.mem_cons_self
          exact h.start hlt _ (not_mem_of_blocksOf_nil hblocks)
        · exact h.elsewhere (.start hne _)
      have hnext : o ∈ os → o < (s.start inst (dirs (s.idOf inst))).1.created ∧
          (s.start inst (dirs (s.idOf inst))).1.blocksOf o = [] := by
        intro ho
        have hne : inst ≠ o := by
          rintro rfl
          exact hnodup.1 ho
        obtain ⟨hlt, hblocks⟩ := hfree (List.mem_cons_of_mem _ ho)
        have helse := Elsewhere.start (s := s) hne (dirs (s.idOf inst))
        exact ⟨hlt.trans_le helse.created, helse.blocks.trans hblocks⟩
      rcases hrun : s.start inst (dirs (s.idOf inst)) with ⟨t, outcome⟩
      rw [hrun] at hstart hnext
      cases outcome with
      | threw => exact hstart
      | returned => exact ih hstart hnodup.2 hnext
    · exact hskip

/-- **The object under a reload**: it may be one of the new objects, or a dropped one.
SOURCE: KlipperInstance.kt:249-291 -/
theorem Accounted.reload (h : s.Accounted o) {loaded : List Oid} (db : Option (List Row))
    (hash : Oid → Nat) (dirs : String → Dirs) (hnodup : loaded.Nodup)
    (hun : o ∈ loaded → s.Unused o ∧ o < s.created) :
    (s.onInstancesLoadedFromDB loaded db hash dirs).1.Accounted o := by
  obtain ⟨hacc₁, hblocks₁, hle₁⟩ := h.adoptAll db loaded hnodup hun
  set s₁ := loaded.foldl (Registry.adoptRow db) s
  set ks := s₁.slots.keys.insertionSort fun a b => hash a ≤ hash b with hks
  have hkeys : o ∈ ks → o < s₁.created := by
    intro ho
    by_contra hge
    have hmem : o ∈ s₁.slots.keys := (List.perm_insertionSort _ _).subset ho
    obtain ⟨k, hk⟩ := (mem_keys_iff_lookup o).mp hmem
    rw [(hacc₁.fresh (Nat.not_lt.mp hge)).key] at hk
    cases hk
  obtain ⟨hacc₂, hblocks₂, hcreated₂⟩ := hacc₁.dropAll (loaded.map s₁.idOf) ks hkeys
  set s₂ := ks.foldl (dropMissing (loaded.map s₁.idOf)) s₁
  set s₃ : Registry := ({ s₂.post .stopServers with
    instances := loaded, instanceMap := fun _ => none } : Registry).fire .instancesRefreshed
    with hs₃
  have hpost : Elsewhere o s₂ s₃ := by
    have hserver : Elsewhere o s₂ (s₂.post .stopServers) := .post (by simp [Block.object?])
    exact ⟨hserver.created, hserver.heap, hserver.key, hserver.blocks, hserver.bindings⟩
  have hrun : s.onInstancesLoadedFromDB loaded db hash dirs = autostartAll dirs s₃ loaded := rfl
  rw [hrun]
  refine (hacc₂.elsewhere hpost).autostart dirs loaded hnodup fun ho => ?_
  obtain ⟨hs, hlt⟩ := hun ho
  refine ⟨?_, ?_⟩
  · exact (hlt.trans_le hle₁).trans_le (hcreated₂ ▸ hpost.created)
  · rw [hpost.blocks, hblocks₂ (List.mem_map_of_mem ho), hblocks₁]
    exact hs.blocks

/-! ## Runs -/

/-- The steps of a run that do the object no harm: no disconnect callback for one of its
bindings, and no `start` of it while its unbind block is queued. -/
def Careful (o : Oid) (s : Registry) : Action → Prop
  | .start x _ => x = o → .unbind o ∉ s.queue
  | .onServiceDisconnected c => ∀ b ∈ s.bindingOf c, b.owner ≠ o
  | _ => True

instance (o : Oid) (s : Registry) (a : Action) : Decidable (Careful o s a) :=
  match a with
  | .start _ _ => inferInstanceAs (Decidable (_ → _))
  | .onServiceDisconnected c => inferInstanceAs (Decidable (∀ b ∈ s.bindingOf c, b.owner ≠ o))
  | .stop _ => inferInstanceAs (Decidable True)
  | .onInstancesLoadedFromDB _ _ _ _ => inferInstanceAs (Decidable True)
  | .runPosted => inferInstanceAs (Decidable True)
  | .onServiceConnected _ => inferInstanceAs (Decidable True)

/-- The actions that run a posted block. -/
def Action.isRunPosted : Action → Bool
  | .runPosted => true
  | _ => false

/-- The object of a queued block exists. -/
theorem Accounted.pop_bound (h : s.Accounted o) {b : Block} (hb : b ∈ s.queue)
    (hobj : b.object? = some o) : o < s.created := by
  by_contra hge
  have hmem : b ∈ s.blocksOf o := mem_blocksOf.mpr ⟨hb, hobj⟩
  rw [(h.fresh (Nat.not_lt.mp hge)).blocks] at hmem
  cases hmem

/-- **A posted block** keeps the account. -/
theorem Accounted.runBlock (h : s.Accounted o) {b : Block} {q : List Block}
    (hq : s.queue = b :: q) : (({ s with queue := q } : Registry).runBlock b).Accounted o := by
  have hmem : b ∈ s.queue := hq ▸ List.mem_cons_self
  by_cases hobj : b.object? = some o
  · have ho := h.pop_bound hmem hobj
    cases b with
    | bind x n =>
      simp only [Block.object?, Option.some.injEq] at hobj
      subst hobj
      exact h.runBind ho hq
    | unbind x =>
      simp only [Block.object?, Option.some.injEq] at hobj
      subst hobj
      exact (h.runUnbind ho hq).1
    | stopServers => cases hobj
    | bindServers => cases hobj
  · have hp := h.elsewhere (Elsewhere.pop hq hobj)
    cases b with
    | bind x n =>
      have hne : x ≠ o := by simpa [Block.object?] using hobj
      exact hp.elsewhere (.runBind hne n)
    | unbind x =>
      have hne : x ≠ o := by simpa [Block.object?] using hobj
      exact hp.elsewhere (.runUnbind hne)
    | stopServers => exact hp.elsewhere .stopServers
    | bindServers => exact hp.elsewhere (.same (runBindServers_same _))

/-- **One careful step.** -/
theorem Accounted.step {a : Action} (h : s.Accounted o) (hg : Careful o s a)
    (hs : Registry.step s a = some t) : t.Accounted o := by
  unfold Registry.step at hs
  split at hs
  · cases hs
  cases a with
  | start x dirs =>
    simp only [Option.ite_none_right_eq_some, Option.some.injEq] at hs
    obtain ⟨hlt, rfl⟩ := hs
    by_cases hx : x = o
    · subst hx
      exact h.start hlt dirs (hg rfl)
    · exact h.elsewhere (.start hx dirs)
  | stop x =>
    simp only [Option.ite_none_right_eq_some, Option.some.injEq] at hs
    obtain ⟨hlt, rfl⟩ := hs
    by_cases hx : x = o
    · subst hx
      exact h.stop hlt
    · exact h.elsewhere (.stop hx)
  | onInstancesLoadedFromDB rows db hash dirs =>
    simp only [Option.ite_none_right_eq_some, Option.some.injEq] at hs
    obtain ⟨-, rfl⟩ := hs
    have hload := loadRows_spec s rows
    refine (h.loaded hload).reload db hash dirs hload.nodup fun ho => ?_
    obtain ⟨hge, hlt⟩ := hload.range o ho
    exact ⟨Unused.loaded hload (h.fresh hge), hlt⟩
  | runPosted =>
    cases hq : s.queue with
    | nil => simp [hq] at hs
    | cons b q =>
      simp only [hq, Option.some.injEq] at hs
      subst hs
      exact h.runBlock hq
  | onServiceConnected c =>
    obtain ⟨b, hb, rfl⟩ := Option.map_eq_some_iff.mp hs
    by_cases hown : b.owner = o
    · exact h.onServiceConnected (List.mem_of_find?_eq_some hb) hown
    · exact h.elsewhere (.onServiceConnected hown)
  | onServiceDisconnected c =>
    obtain ⟨b, hb, rfl⟩ := Option.map_eq_some_iff.mp hs
    exact h.elsewhere (.onServiceDisconnected (hg b hb))

/-- Every object is accounted for after a run that is careful with it. -/
theorem accounted_of_run {acts : List Action}
    (hrun : run (restrict step (Careful o)) empty acts = some s) : s.Accounted o := by
  have hempty : empty.Unused o :=
    ⟨rfl, fun b hb => (List.not_mem_nil hb).elim, rfl⟩
  have hstep : ∀ (s : Registry) a t, s.Accounted o → Careful o s a → step s a = some t →
      t.Accounted o := fun _ _ _ h hg hs => h.step hg hs
  exact run_restrict_invariant hstep hempty.accounted hrun

/-! ## The queue -/

/-- The step only adds blocks at the end of the queue. -/
def Appends (s t : Registry) : Prop := ∃ p, t.queue = s.queue ++ p

/-- A step that leaves the queue appends nothing. -/
theorem Appends.of_eq (h : t.queue = s.queue) : Appends s t := ⟨[], by simpa using h⟩

/-- Two steps that append do together. -/
theorem Appends.trans (h : Appends s t) (h' : Appends t u) : Appends s u := by
  obtain ⟨p, hp⟩ := h
  obtain ⟨q, hq⟩ := h'
  exact ⟨p ++ q, by rw [hq, hp, List.append_assoc]⟩

/-- An announcement only appends blocks. -/
theorem Appends.notifyStateChanged (x : Oid) (st : State) :
    Appends s (s.notifyStateChanged x st) := ⟨_, notifyStateChanged_queue s x st⟩

/-- `stop` only appends blocks. -/
theorem Appends.stop (x : Oid) : Appends s (s.stop x) := by
  by_cases hst : s.stateOf x = .running ∨ s.stateOf x = .starting
  · rw [stop_eq s x hst]
    exact (Appends.notifyStateChanged x .stopping).trans ⟨_, rfl⟩
  · rw [stop_eq_self s x hst]
    exact .of_eq rfl

/-- `start` does too. -/
theorem Appends.start (x : Oid) (dirs : Dirs) : Appends s (s.start x dirs).1 := by
  have hstarting : Appends s (s.notifyStateChanged x .starting) := .notifyStateChanged x .starting
  rcases start_cases s x dirs with ⟨-, heq⟩ | ⟨-, -, heq⟩ | ⟨-, -, -, -, heq⟩ |
    ⟨k, -, -, -, -, heq⟩
  · rw [heq]
    exact .of_eq rfl
  · rw [heq]
    exact hstarting.trans (.stop x)
  · rw [heq]
    exact hstarting
  · rw [heq]
    exact hstarting.trans ⟨_, rfl⟩

/-- So does a service that is gone. -/
theorem Appends.onUnbound (svc : Svc) (x : Oid) : Appends s (onUnbound svc s x) := by
  rw [onUnbound_eq]
  split
  · exact .of_eq rfl
  · have hnotify : ∀ v : Registry, Appends v (v.notifyStateChanged x .idle) :=
      fun v => .notifyStateChanged x .idle
    exact hnotify (s.modifyLink x svc fun l => { l with connection := none, connected := false })

/-- So does one that comes up. -/
theorem Appends.onServiceConnected (b : Binding) : Appends s (s.onServiceConnected b) := by
  unfold Registry.onServiceConnected
  simp only
  split
  · have hnotify : ∀ v : Registry, Appends v (v.notifyStateChanged b.owner .running) :=
      fun v => .notifyStateChanged b.owner .running
    exact hnotify ((s.setConnected b.conn true).modifyLink b.owner b.svc
      fun l => { l with connected := true })
  · exact .of_eq rfl

/-- A posted block only appends blocks. -/
theorem Appends.runBlock (b : Block) : Appends s (s.runBlock b) := by
  cases b with
  | bind x n =>
    by_cases hservice : HasService (s.heap x).slot
    · refine .of_eq (t := s.runBind x n) ?_
      rw [runBind_eq s x n hservice]
    · refine .of_eq (t := s.runBind x n) ?_
      unfold runBind
      rw [if_neg hservice]
  | unbind x =>
    obtain ⟨n, hn⟩ := (runUnbind_spec (s := s) (o := x)).1.queue
    exact ⟨_, hn⟩
  | stopServers =>
    refine .of_eq (t := s.stopServerServicesIfNoSlots) ?_
    unfold stopServerServicesIfNoSlots
    split
    · rfl
    · simp only
      split <;> split <;> rfl
  | bindServers => exact .of_eq (runBindServers_same s).queue

/-- So does a reload. -/
theorem Appends.reload (loaded : List Oid) (db : Option (List Row)) (hash : Oid → Nat)
    (dirs : String → Dirs) : Appends s (s.onInstancesLoadedFromDB loaded db hash dirs).1 := by
  have hadopt : ∀ (os : List Oid) (t : Registry), Appends t (os.foldl (adoptRow db) t) := by
    intro os
    induction os with
    | nil => exact fun t => .of_eq rfl
    | cons inst os ih =>
      intro t
      refine Appends.trans (.of_eq ?_) (ih _)
      obtain ⟨v, rows, vs, hload, heq⟩ := getInstance_cases (s := t) (t.idOf inst) db
      unfold adoptRow
      rcases hget : t.getInstance (t.idOf inst) db with ⟨w, r⟩
      rw [hget] at heq
      have hw : w.queue = t.queue := by
        have hfield := congrArg Registry.queue heq
        have hv : v.queue = t.queue := by rw [hload.eq]
        exact Eq.trans hfield hv
      cases r with
      | none => exact hw
      | some was =>
        simp only
        rw [adopt_eq]
        exact hw
  have hdrop : ∀ (ids : List String) (ks : List Oid) (t : Registry),
      Appends t (ks.foldl (dropMissing ids) t) := by
    intro ids ks
    induction ks with
    | nil => exact fun t => .of_eq rfl
    | cons was ks ih =>
      intro t
      refine Appends.trans ?_ (ih _)
      unfold dropMissing
      split
      · exact .of_eq rfl
      · have hstop : ∀ v : Registry, Appends v (v.stop was) := fun v => .stop was
        exact hstop { t with slots := t.slots.erase was }
  have hauto : ∀ (os : List Oid) (t : Registry), Appends t (autostartAll dirs t os).1 := by
    intro os
    induction os with
    | nil => exact fun t => .of_eq rfl
    | cons inst os ih =>
      intro t
      have hstart := Appends.start (s := t) inst (dirs (t.idOf inst))
      unfold autostartAll
      split
      · rcases hrun : t.start inst (dirs (t.idOf inst)) with ⟨v, outcome⟩
        rw [hrun] at hstart
        cases outcome with
        | threw => exact hstart
        | returned => exact hstart.trans (ih v)
      · exact ih t
  have hpost : ∀ v : Registry, Appends v (v.post .stopServers) := fun v => ⟨_, rfl⟩
  exact ((hadopt loaded s).trans (hdrop _ _ _)).trans ((hpost _).trans (hauto loaded _))

/-- **The main handler's queue is first in, first out.** -/
theorem fifo_step : Fifo step Registry.queue Action.isRunPosted := by
  intro s a t hs
  unfold step at hs
  split at hs
  · cases hs
  cases a with
  | start x dirs =>
    simp only [Option.ite_none_right_eq_some, Option.some.injEq] at hs
    exact hs.2 ▸ Appends.start x dirs
  | stop x =>
    simp only [Option.ite_none_right_eq_some, Option.some.injEq] at hs
    exact hs.2 ▸ Appends.stop x
  | onInstancesLoadedFromDB rows db hash dirs =>
    simp only [Option.ite_none_right_eq_some, Option.some.injEq] at hs
    have hload : Appends s (s.loadRows rows).1 := .of_eq (by rw [(loadRows_spec s rows).eq])
    exact hs.2 ▸ hload.trans (.reload _ db hash dirs)
  | runPosted =>
    cases hq : s.queue with
    | nil => simp [hq] at hs
    | cons b q =>
      simp only [hq, Option.some.injEq] at hs
      obtain ⟨p, hp⟩ := Appends.runBlock (s := { s with queue := q }) b
      exact ⟨b, q, p, rfl, hs ▸ hp⟩
  | onServiceConnected c =>
    obtain ⟨b, -, rfl⟩ := Option.map_eq_some_iff.mp hs
    exact Appends.onServiceConnected b
  | onServiceDisconnected c =>
    obtain ⟨b, -, rfl⟩ := Option.map_eq_some_iff.mp hs
    exact Appends.onUnbound b.svc b.owner

/-! ## The property -/

/-- A disconnect callback leaves the binding it is about outstanding, whatever becomes of
its object.
SOURCE: KlipperInstance.kt:166-180 -/
theorem binding_after_disconnect {c : Conn} {b : Binding} (hb : s.bindingOf c = some b)
    (hs : step s (.onServiceDisconnected c) = some t) : ∃ d ∈ t.bindings, d.owner = b.owner := by
  unfold step at hs
  split at hs
  · cases hs
  simp only [hb, Option.map_some, Option.some.injEq] at hs
  refine ⟨{ b with connected := false }, ?_, rfl⟩
  rw [← hs]
  unfold Registry.onServiceDisconnected
  rw [onUnbound_bindings, setConnected_bindings]
  exact List.mem_map.mpr ⟨b, List.mem_of_find?_eq_some hb, if_pos rfl⟩

/-- **`stop` releases everything.** In a run that is careful with `o`, once the block `stop`
posted has run (the one behind the blocks queued at the call) the object is idle, none of
its bindings is outstanding and it is no key of the slots. A disconnect callback that makes
its object idle, on the other hand, always leaves the binding outstanding. -/
theorem stop_releases {acts acts' : List Action}
    (hrun : run (restrict step (Careful o)) empty acts = some s)
    (hup : s.stateOf o = .running ∨ s.stateOf o = .starting)
    (hrun' : run (restrict step (Careful o)) s (.stop o :: (acts' ++ [.runPosted])) = some u)
    (hpopped : acts'.countP Action.isRunPosted = s.queue.length) :
    ((∀ b ∈ u.bindings, b.owner ≠ o) ∧ u.stateOf o = .idle ∧ o ∉ u.slots.keys) ∧
      ∀ v w c b, v.bindingOf c = some b → step v (.onServiceDisconnected c) = some w →
        w.stateOf b.owner = .idle → ∃ d ∈ w.bindings, d.owner = b.owner := by
  refine ⟨?_, fun v w c b hb hs _ => binding_after_disconnect hb hs⟩
  have hacc := accounted_of_run hrun
  obtain ⟨t, hstop, hrest⟩ := run_cons_eq_some.mp hrun'
  obtain ⟨v, hmid, hlast⟩ := run_append_eq_some.mp hrest
  -- the call posts the unbind block behind what is queued
  obtain ⟨hg, hstop⟩ := restrict_eq_some.mp hstop
  have hacct : t.Accounted o := hacc.step hg hstop
  have hqueue : t.queue = s.queue ++ .unbind o :: [] := by
    unfold step at hstop
    split at hstop
    · cases hstop
    simp only [Option.ite_none_right_eq_some, Option.some.injEq] at hstop
    rw [← hstop.2, stop_eq s o hup, post_queue, notifyStateChanged_queue]
    simp [notifyBlocks]
  -- it is at the head once as many blocks have run
  obtain ⟨rest, hhead⟩ := run_queue_head (fifo_step.restrict (Careful o)) hmid hpopped hqueue
  have hstep : ∀ (s : Registry) a t, s.Accounted o → Careful o s a → step s a = some t →
      t.Accounted o := fun _ _ _ h hg hs => h.step hg hs
  have haccv : v.Accounted o := run_restrict_invariant hstep hacct hmid
  -- and running it releases the object
  obtain ⟨w, hw, hu⟩ := run_cons_eq_some.mp hlast
  rw [run_nil, Option.some.injEq] at hu
  subst hu
  have hw := (restrict_eq_some.mp hw).2
  unfold step at hw
  split at hw
  · cases hw
  simp only [hhead, Option.some.injEq] at hw
  subst hw
  have ho := haccv.pop_bound (hhead ▸ List.mem_cons_self) rfl
  obtain ⟨-, hidle, hnone, hkey⟩ := haccv.runUnbind ho hhead
  refine ⟨hnone, hidle, fun hmem => ?_⟩
  obtain ⟨k, hk⟩ := (mem_keys_iff_lookup o).mp hmem
  have hk : (({ v with queue := rest } : Registry).runUnbind o).slots.lookup o = some k := hk
  rw [hkey] at hk
  cases hk

/-- A printer comes up, with a service that connects twice and a reload. -/
def upActions : List Action :=
  [reloadOf [⟨"A", "a", "PRINTER", false⟩], startOf 0, .runPosted, .runPosted,
    .onServiceConnected 0, .onServiceConnected 1, .onServiceConnected 0,
    reloadOf [⟨"A", "a", "PRINTER", false⟩]]

/-- The blocks already queued, with a late callback between them. -/
def drainActions : List Action :=
  [.runPosted, .onServiceConnected 1, .runPosted, .runPosted]

/-- The object the bindings were made by is stopped, after a reload has replaced it. -/
theorem stop_releases_superseded :
    ∃ s u, run (restrict step (Careful 0)) empty upActions = some s ∧
      s.bindings.length = 2 ∧
      run (restrict step (Careful 0)) s (.stop 0 :: (drainActions ++ [.runPosted])) = some u ∧
      (∀ b ∈ u.bindings, b.owner ≠ 0) ∧ u.stateOf 0 = .idle ∧ 0 ∉ u.slots.keys := by
  have hrun : (run (restrict step (Careful 0)) empty upActions).any (fun s =>
      s.stateOf 0 = .running ∧ s.bindings.length = 2 ∧
        drainActions.countP Action.isRunPosted = s.queue.length ∧
        (run (restrict step (Careful 0)) s (.stop 0 :: (drainActions ++ [.runPosted]))).isSome) =
      true := by
    decide +kernel
  obtain ⟨s, hs, hprop⟩ := (Option.any_eq_true _ _).mp hrun
  obtain ⟨hup, hbound, hcount, hsome⟩ := of_decide_eq_true hprop
  obtain ⟨u, hu⟩ := Option.isSome_iff_exists.mp hsome
  exact ⟨s, u, hs, hbound, hu, (stop_releases hs (.inl hup) hu hcount).1⟩

/-- A printer comes up, and one of its services is reported gone. -/
def crashedServiceActions : List Action :=
  [reloadOf [⟨"A", "a", "PRINTER", false⟩], startOf 0, .runPosted, .runPosted,
    .onServiceConnected 0, .onServiceConnected 1, .runPosted, .onServiceDisconnected 0]

/-- After the disconnect callback the block of `stop` does not release everything.
SOURCE: KlipperInstance.kt:142, 166-172 -/
theorem stop_leaves_binding :
    ¬∀ acts acts' s u o, run step empty acts = some s →
      s.stateOf o = .running ∨ s.stateOf o = .starting →
      run step s (.stop o :: (acts' ++ [.runPosted])) = some u →
      acts'.countP Action.isRunPosted = s.queue.length →
      (∀ b ∈ u.bindings, b.owner ≠ o) ∧ u.stateOf o = .idle ∧ o ∉ u.slots.keys := by
  intro h
  have hrun : (run step empty crashedServiceActions).any (fun s =>
      s.stateOf 0 = .running ∧ s.queue.length = 0 ∧
        (run step s [.stop 0, .runPosted]).any fun u => ∃ b ∈ u.bindings, b.owner = 0) = true := by
    decide +kernel
  obtain ⟨s, hs, hprop⟩ := (Option.any_eq_true _ _).mp hrun
  obtain ⟨hup, hempty, hnext⟩ := of_decide_eq_true hprop
  obtain ⟨u, hu, hleft⟩ := (Option.any_eq_true _ _).mp hnext
  obtain ⟨b, hb, hown⟩ := of_decide_eq_true hleft
  exact (h _ [] s u 0 hs (.inl hup) hu hempty.symm).1 b hb hown

end Registry

end Cream.Model
