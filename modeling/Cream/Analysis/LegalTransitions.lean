import Cream.Analysis.SlotExclusivity

/-!
# Legal transitions

Which state changes the registry announces, and what the slots say about idle and running
objects. Every operation is a sequence of elementary changes (`Evolves`): silent ones, one
call of `notifyStateChanged`, one slot taken. A property that the elementary changes keep is
kept by the operations. No idle object is ever a key (`Awake`). The other two parts hold in
the runs in which a service is reported connected only to an object that is coming up, and no
superseded object becomes idle beside a running one (`Graceful`).
-/

set_option autoImplicit false

namespace Cream.Model

open Cream.Library.Transition

namespace Registry

variable {s t u : Registry} {o : Oid}

/-- The state changes of an instance's life. -/
def Legal (before after : State) : Prop :=
  after = before ∨ (before, after) ∈ [(State.idle, State.starting), (.starting, .running),
    (.starting, .stopping), (.running, .stopping), (.starting, .idle), (.running, .idle),
    (.stopping, .idle)]

instance (before after : State) : Decidable (Legal before after) :=
  inferInstanceAs (Decidable (_ ∨ _))

/-- Every call of `notifyStateChanged` so far was legal. -/
def Lawful (s : Registry) : Prop := ∀ n ∈ s.notified, Legal n.before n.after

/-- The companion's references exist, and the keys exist and are not idle. -/
structure Awake (s : Registry) : Prop where
  indexed : Indexed s
  live : ∀ x k, s.slots.lookup x = some k → x < s.created
  awake : ∀ x k, s.slots.lookup x = some k → s.stateOf x ≠ .idle

/-- A running object that is its id's current one has a slot. -/
def Held (s : Registry) : Prop :=
  ∀ i x, s.registered i = some x → s.stateOf x = .running → ∃ k, s.slots.lookup x = some k

/-! ## Elementary changes -/

/-- Nothing a slot, a state or the companion's index depends on has changed. -/
structure Silent (s t : Registry) : Prop where
  created : t.created = s.created
  id : ∀ x, t.idOf x = s.idOf x
  state : ∀ x, t.stateOf x = s.stateOf x
  lookup : ∀ x, t.slots.lookup x = s.slots.lookup x
  notified : t.notified = s.notified
  index : t.instances = s.instances ∧ t.instanceMap = s.instanceMap

/-- A step that leaves the objects, the slots and the companion is silent. -/
theorem Silent.of_eq (hheap : t.heap = s.heap) (hcreated : t.created = s.created)
    (hslots : t.slots = s.slots) (hnotified : t.notified = s.notified)
    (hinst : t.instances = s.instances) (hmap : t.instanceMap = s.instanceMap) : Silent s t :=
  ⟨hcreated, fun x => by rw [idOf, hheap, idOf], fun x => by rw [stateOf, hheap, stateOf],
    fun x => by rw [hslots], hnotified, hinst, hmap⟩

/-- Assigning fields other than the id and the state is silent. -/
theorem Silent.modify (s : Registry) (o : Oid) {f : KlipperInstance → KlipperInstance}
    (hid : ∀ i, (f i).id = i.id) (hstate : ∀ i, (f i).state = i.state) :
    Silent s (s.modify o f) where
  created := rfl
  id x := idOf_modify s o x f hid
  state x := by
    unfold stateOf
    rw [modify_heap]
    by_cases hx : x = o
    · subst hx
      rw [Function.update_self, hstate]
    · rw [Function.update_of_ne hx]
  lookup _ := rfl
  notified := rfl
  index := ⟨rfl, rfl⟩

/-- A change of a link is silent. -/
theorem Silent.modifyLink (s : Registry) (o : Oid) (svc : Svc) (f : Link → Link) :
    Silent s (s.modifyLink o svc f) :=
  .modify s o (fun _ => rfl) fun _ => rfl

/-- Two silent steps are one. -/
theorem Silent.trans (h : Silent s t) (h' : Silent t u) : Silent s u :=
  ⟨h'.created.trans h.created, fun x => (h'.id x).trans (h.id x),
    fun x => (h'.state x).trans (h.state x), fun x => (h'.lookup x).trans (h.lookup x),
    h'.notified.trans h.notified, h'.index.1.trans h.index.1, h'.index.2.trans h.index.2⟩

/-- They register nothing. -/
theorem Silent.registered (h : Silent s t) (i : String) : t.registered i = s.registered i :=
  registered_congr h.index.2 h.index.1 (fun x _ => h.id x) i

/-- The elementary changes of which the operations are made; `allowed` says which calls of
`notifyStateChanged` are among them. -/
inductive Evolves (allowed : Registry → Oid → State → Prop) : Registry → Registry → Prop
  | silent {s t : Registry} (h : Silent s t) : Evolves allowed s t
  | notify {s : Registry} {o : Oid} {st : State} (h : allowed s o st) :
      Evolves allowed s (s.notifyStateChanged o st)
  | takeSlot {s : Registry} {o : Oid} {k : Int} (hlive : o < s.created)
      (hstate : s.stateOf o = .starting) :
      Evolves allowed s { s with slots := s.slots.insert o k }
  | trans {s t u : Registry} (h : Evolves allowed s t) (h' : Evolves allowed t u) :
      Evolves allowed s u

variable {allowed : Registry → Oid → State → Prop}

/-- Nothing has to happen. -/
theorem Evolves.refl (s : Registry) : Evolves allowed s s :=
  .silent ⟨rfl, fun _ => rfl, fun _ => rfl, fun _ => rfl, rfl, rfl, rfl⟩

/-- Elementary changes keep the objects, their ids and the companion's index. -/
theorem Evolves.indexed (h : Evolves allowed s t) (hi : Indexed s) : Indexed t := by
  induction h with
  | silent h => exact hi.congr (le_of_eq h.created.symm) (fun x _ => h.id x) h.index.1 h.index.2
  | notify _ =>
    exact hi.congr (le_of_eq (notifyStateChanged_created ..).symm)
      (fun x _ => idOf_notifyStateChanged ..) (notifyStateChanged_instances ..)
      (notifyStateChanged_instanceMap ..)
  | takeSlot _ _ => exact ⟨hi.instances, hi.instanceMap⟩
  | trans _ _ ih ih' => exact ih' (ih hi)

/-- **No idle object becomes a key**, whatever is announced.
SOURCE: KlipperInstance.kt:182-194 -/
theorem Evolves.awake (h : Evolves allowed s t) (ha : Awake s) : Awake t := by
  have hkeys : ∀ x k, t.slots.lookup x = some k → x < t.created ∧ t.stateOf x ≠ .idle := by
    have hs : ∀ x k, s.slots.lookup x = some k → x < s.created ∧ s.stateOf x ≠ .idle :=
      fun x k hk => ⟨ha.live x k hk, ha.awake x k hk⟩
    clear ha
    induction h with
    | silent h =>
      intro x k hk
      rw [h.lookup] at hk
      rw [h.created, h.state]
      exact hs x k hk
    | @notify s o st _ =>
      intro x k hk
      rw [lookup_notifyStateChanged] at hk
      split at hk
      · cases hk
      · next hkeep =>
        rw [notifyStateChanged_created, stateOf_notifyStateChanged]
        refine ⟨(hs x k hk).1, ?_⟩
        split
        · next hx =>
          subst hx
          exact fun hidle => hkeep ⟨hidle, rfl⟩
        · exact (hs x k hk).2
    | @takeSlot s o k hlive hstate =>
      intro x l hl
      by_cases hx : x = o
      · subst hx
        refine ⟨hlive, ?_⟩
        show s.stateOf x ≠ .idle
        rw [hstate]
        decide
      · rw [AList.lookup_insert_ne hx] at hl
        exact hs x l hl
    | trans _ _ ih ih' => exact ih' (ih hs)
  exact ⟨h.indexed ha.indexed, fun x k hk => (hkeys x k hk).1, fun x k hk => (hkeys x k hk).2⟩

/-- **Legal announcements stay legal** when the allowed ones are.
SOURCE: KlipperInstance.kt:182-185 -/
theorem Evolves.lawful (h : Evolves allowed s t)
    (hallowed : ∀ s o st, allowed s o st → Legal (s.stateOf o) st) (hs : Lawful s) : Lawful t := by
  induction h with
  | silent h =>
    unfold Lawful
    rw [h.notified]
    exact hs
  | @notify s o st h =>
    have hnotified : (s.notifyStateChanged o st).notified =
        s.notified ++ [⟨o, s.stateOf o, st⟩] := by
      cases st <;> rfl
    unfold Lawful
    rw [hnotified]
    intro n hn
    rcases List.mem_append.mp hn with hn | hn
    · exact hs n hn
    · rw [List.mem_singleton.mp hn]
      exact hallowed s o st h
  | takeSlot _ _ => exact hs
  | trans _ _ ih ih' => exact ih' (ih hs)

/-- No other object of the same id is current and running. -/
def Sole (s : Registry) (o : Oid) : Prop :=
  ∀ x ∈ s.registered (s.idOf o), x = o ∨ s.stateOf x ≠ .running

instance (s : Registry) (o : Oid) : Decidable (s.Sole o) :=
  inferInstanceAs (Decidable (∀ x ∈ s.registered (s.idOf o), _))

/-- The announcements that keep the running objects in their slots. -/
def Orderable (s : Registry) (o : Oid) : State → Prop
  | .idle => s.Sole o
  | .starting => s.stateOf o = .idle
  | .running => (s.stateOf o = .starting ∨ s.stateOf o = .running) ∧
    (s.registered (s.idOf o) = some o → o ∈ s.slots.keys)
  | .stopping => s.stateOf o = .starting ∨ s.stateOf o = .running

/-- What may be announced is a legal change. -/
theorem Orderable.legal {st : State} (h : Orderable s o st) : Legal (s.stateOf o) st := by
  cases st with
  | idle =>
    cases s.stateOf o <;> decide
  | starting =>
    have h : s.stateOf o = .idle := h
    rw [h]
    decide
  | running =>
    rcases h.1 with h | h <;> rw [h] <;> decide
  | stopping =>
    rcases h with h | h <;> rw [h] <;> decide

/-- **A running current object keeps its slot.**
SOURCE: KlipperInstance.kt:187-194 -/
theorem Evolves.held (h : Evolves Orderable s t) (hi : Indexed s) (hs : Held s) : Held t := by
  induction h with
  | silent h =>
    intro i x hx hrun
    rw [h.registered] at hx
    rw [h.state] at hrun
    rw [h.lookup]
    exact hs i x hx hrun
  | @notify s o st h =>
    intro i x hx hrun
    have hreg : s.registered i = some x := by
      rwa [registered_congr (notifyStateChanged_instanceMap ..)
        (notifyStateChanged_instances ..) (fun y _ => idOf_notifyStateChanged ..)] at hx
    have hid := (hi.registered hreg).2
    rw [stateOf_notifyStateChanged] at hrun
    rw [lookup_notifyStateChanged]
    by_cases hxo : x = o
    · subst hxo
      rw [if_pos rfl] at hrun
      subst hrun
      rw [if_neg fun h => nomatch h.1]
      rw [← hid] at hreg
      exact (mem_keys_iff_lookup x).mp (h.2 hreg)
    · rw [if_neg hxo] at hrun
      split
      · next hgone =>
        obtain ⟨rfl, hsame⟩ := hgone
        rw [hid] at hsame
        rw [hsame] at hreg
        rcases (show s.Sole o from h) x hreg with heq | hne
        · exact absurd heq hxo
        · exact absurd hrun hne
      · exact hs i x hreg hrun
  | @takeSlot s o k _ _ =>
    intro i x hx hrun
    have hreg : s.registered i = some x := by
      rw [registered_eq] at hx ⊢
      exact hx
    by_cases hxo : x = o
    · subst hxo
      exact ⟨k, AList.lookup_insert _⟩
    · rw [AList.lookup_insert_ne hxo]
      exact hs i x hreg hrun
  | trans h _ ih ih' => exact ih' (h.indexed hi) (ih hi hs)

/-! ## The operations as elementary changes -/

/-- Posting a block is silent. -/
theorem Silent.post (s : Registry) (b : Block) : Silent s (s.post b) :=
  .of_eq rfl rfl rfl rfl rfl rfl

/-- `stop` announces that an object that is up is stopping.
SOURCE: KlipperInstance.kt:135-140 -/
theorem evolves_stop (hallowed : ∀ s : Registry, s.stateOf o = .starting ∨ s.stateOf o = .running →
    allowed s o .stopping) (s : Registry) : Evolves allowed s (s.stop o) := by
  by_cases hst : s.stateOf o = .running ∨ s.stateOf o = .starting
  · rw [stop_eq s o hst]
    exact (Evolves.notify (hallowed s hst.symm)).trans (.silent (.post _ _))
  · rw [stop_eq_self s o hst]
    exact .refl s

/-- `start` announces an idle object as starting, and takes a slot for it.
SOURCE: KlipperInstance.kt:46-133 -/
theorem evolves_start (hlive : o < s.created) (dirs : Dirs)
    (hstart : ∀ s : Registry, s.stateOf o = .idle → allowed s o .starting)
    (hstop : ∀ s : Registry, s.stateOf o = .starting ∨ s.stateOf o = .running →
      allowed s o .stopping) : Evolves allowed s (s.start o dirs).1 := by
  have hslot : ∀ (t : Registry) (k : Int), Silent t (t.modify o fun i => { i with slot := k }) :=
    fun t k => .modify t o (fun _ => rfl) fun _ => rfl
  rcases s.start_cases o dirs with ⟨-, h⟩ | ⟨hidle, -, h⟩ | ⟨hidle, -, -, -, h⟩ |
    ⟨k, hidle, -, -, -, h⟩ <;> rw [h]
  · exact .refl s
  · exact (Evolves.notify (hstart s hidle)).trans (evolves_stop hstop _)
  · exact (Evolves.notify (hstart s hidle)).trans (.silent (hslot _ _))
  · refine (Evolves.notify (hstart s hidle)).trans ((Evolves.silent (hslot _ k)).trans
      ((Evolves.takeSlot ?_ ?_).trans (.silent (.post _ _))))
    · exact hlive.trans_le (le_of_eq (notifyStateChanged_created ..).symm)
    · rw [(hslot _ k).state, stateOf_notifyStateChanged, if_pos rfl]

/-- A service that is gone announces its object as idle when the other one is not connected either.
SOURCE: KlipperInstance.kt:166-180 -/
theorem evolves_onUnbound (svc : Svc) (s : Registry)
    (hidle : ((s.heap o).link svc.other).connected = false →
      allowed (s.modifyLink o svc fun l => { l with connection := none, connected := false }) o
        .idle) : Evolves allowed s (onUnbound svc s o) := by
  have hlink := Silent.modifyLink s o svc fun l => { l with connection := none, connected := false }
  rw [onUnbound_eq]
  split
  · exact .silent hlink
  · next hc => exact (Evolves.silent hlink).trans (.notify (hidle (by simpa using hc)))

/-- `onServiceConnected` is silent up to the announcement.
SOURCE: KlipperInstance.kt:99-104, 118-123 -/
theorem evolves_onServiceConnected (s : Registry) (b : Binding)
    (hrunning : ((s.heap b.owner).link b.svc.other).connected = true →
      ∀ t, Silent s t → allowed t b.owner .running) :
    Evolves allowed s (s.onServiceConnected b) := by
  set t := (s.setConnected b.conn true).modifyLink b.owner b.svc fun l =>
    { l with connected := true } with ht
  have hset : Silent s (s.setConnected b.conn true) := .of_eq rfl rfl rfl rfl rfl rfl
  have hsilent : Silent s t := hset.trans (.modifyLink _ _ _ _)
  have hother : ((t.heap b.owner).link b.svc.other) = ((s.heap b.owner).link b.svc.other) := by
    rw [ht]
    cases b.svc <;> simp [modifyLink, Svc.other]
  unfold onServiceConnected
  simp only [← ht]
  split
  · next hc =>
    rw [hother] at hc
    exact (Evolves.silent hsilent).trans (.notify (hrunning hc t hsilent))
  · exact .silent hsilent

/-- Running or stopping the servers is silent while no idle object is a key.
SOURCE: KlipperInstance.kt:340-371 -/
theorem silent_stopServers (ha : Awake s) : Silent s s.stopServerServicesIfNoSlots := by
  have hsame := stopServers_same s ha.awake
  have hnotified : s.stopServerServicesIfNoSlots.notified = s.notified := by
    unfold stopServerServicesIfNoSlots
    split
    · rfl
    · simp only
      split <;> split <;> rfl
  exact ⟨hsame.created, fun x => by rw [idOf, hsame.heap, idOf],
    fun x => by rw [stateOf, hsame.heap, stateOf], hsame.lookup, hnotified, hsame.instances,
    hsame.instanceMap⟩

/-- So is binding the servers. -/
theorem silent_runBindServers (s : Registry) : Silent s s.runBindServers := by
  have hsame := runBindServers_same s
  have hnotified : s.runBindServers.notified = s.notified := by
    unfold runBindServers
    simp only
    split <;> split <;> rfl
  exact ⟨hsame.created, fun x => by rw [idOf, hsame.heap, idOf],
    fun x => by rw [stateOf, hsame.heap, stateOf], hsame.lookup, hnotified, hsame.instances,
    hsame.instanceMap⟩

/-- The block of `start` is silent.
SOURCE: KlipperInstance.kt:93-132 -/
theorem silent_runBind (s : Registry) (o : Oid) (instId : String) : Silent s (s.runBind o instId) := by
  unfold runBind
  split
  · have hbind : ∀ (t : Registry) svc, Silent t (t.bindService o svc instId) := fun t svc =>
      (Silent.modifyLink t o svc fun l =>
        { l with intent := some (t.heap o).slot, connection := some t.nextConn }).trans
        (.of_eq rfl rfl rfl rfl rfl rfl)
    exact (hbind s .klippy).trans (hbind _ .moonraker)
  · exact .of_eq rfl rfl rfl rfl rfl rfl

/-- Only the state of `o` may have changed. -/
structure Beside (o : Oid) (s t : Registry) : Prop where
  id : ∀ x, t.idOf x = s.idOf x
  state : ∀ x, x ≠ o → t.stateOf x = s.stateOf x
  index : t.instances = s.instances ∧ t.instanceMap = s.instanceMap

/-- Two steps beside an object are one. -/
theorem Beside.trans (h : Beside o s t) (h' : Beside o t u) : Beside o s u :=
  ⟨fun x => (h'.id x).trans (h.id x), fun x hx => (h'.state x hx).trans (h.state x hx),
    h'.index.1.trans h.index.1, h'.index.2.trans h.index.2⟩

/-- A silent step is beside every object. -/
theorem Silent.beside (h : Silent s t) (o : Oid) : Beside o s t :=
  ⟨h.id, fun x _ => h.state x, h.index⟩

/-- The announcement of an object is beside it. -/
theorem Beside.notifyStateChanged (s : Registry) (o : Oid) (st : State) :
    Beside o s (s.notifyStateChanged o st) :=
  ⟨fun _ => idOf_notifyStateChanged .., fun x hx => by rw [stateOf_notifyStateChanged, if_neg hx],
    notifyStateChanged_instances .., notifyStateChanged_instanceMap ..⟩

/-- So is a service of it that is gone. -/
theorem Beside.onUnbound (svc : Svc) (s : Registry) (o : Oid) :
    Beside o s (onUnbound svc s o) := by
  rw [onUnbound_eq]
  split
  · exact (Silent.modifyLink ..).beside o
  · exact ((Silent.modifyLink ..).beside o).trans (.notifyStateChanged ..)

/-- So is the release of a link of it. -/
theorem Beside.releaseLink (svc : Svc) (s : Registry) (o : Oid) :
    Beside o s (releaseLink svc s o) := by
  unfold Registry.releaseLink
  split
  · exact ⟨fun _ => rfl, fun _ _ => rfl, rfl, rfl⟩
  · have hunbind : ∀ c, Silent s (s.unbindService c) := fun _ => .of_eq rfl rfl rfl rfl rfl rfl
    exact ((hunbind _).beside o).trans (.onUnbound svc _ o)

/-- A step beside an object leaves it as sole as it was. -/
theorem Sole.beside (h : Beside o s t) : t.Sole o ↔ s.Sole o := by
  have hreg : t.registered (t.idOf o) = s.registered (s.idOf o) := by
    rw [h.id, registered_congr h.index.2 h.index.1 fun x _ => h.id x]
  unfold Sole
  rw [hreg]
  refine forall_congr' fun x => forall_congr' fun _ => ?_
  by_cases hx : x = o
  · simp [hx]
  · rw [h.state x hx]

/-- The block `stop` posted announces that its object is idle. -/
def BecomesIdle (s : Registry) (o : Oid) : Prop :=
  s.stateOf o = .stopping ∨
    (((s.heap o).link .klippy).connection ≠ none ∧
      ((s.heap o).link .moonraker).connected = false) ∨
    (((s.heap o).link .moonraker).connection ≠ none ∧
      (((s.heap o).link .klippy).connection ≠ none ∨
        ((s.heap o).link .klippy).connected = false))

instance (s : Registry) (o : Oid) : Decidable (s.BecomesIdle o) :=
  inferInstanceAs (Decidable (_ ∨ _ ∨ _))

/-- The release of a link announces idle at most. -/
theorem evolves_releaseLink (svc : Svc) (s : Registry)
    (hidle : ((s.heap o).link svc).connection ≠ none →
      ((s.heap o).link svc.other).connected = false → ∀ t, Beside o s t → allowed t o .idle) :
    Evolves allowed s (releaseLink svc s o) := by
  unfold releaseLink
  cases hc : ((s.heap o).link svc).connection with
  | none => exact .refl s
  | some c =>
    have hunbind : Silent s (s.unbindService c) := .of_eq rfl rfl rfl rfl rfl rfl
    refine (Evolves.silent hunbind).trans (evolves_onUnbound svc _ fun hother => ?_)
    have hne : ((s.heap o).link svc).connection ≠ none := by
      rw [hc]
      exact Option.some_ne_none c
    exact hidle hne hother _ ((hunbind.beside o).trans ((Silent.modifyLink ..).beside o))

/-- The block of `stop` announces its object as idle at most.
SOURCE: KlipperInstance.kt:140-163 -/
theorem evolves_runUnbind (s : Registry) (o : Oid)
    (hidle : s.BecomesIdle o → ∀ t, Beside o s t → allowed t o .idle) :
    Evolves allowed s (s.runUnbind o) := by
  have hk := Beside.releaseLink .klippy s o
  have hm := Beside.releaseLink .moonraker (releaseLink .klippy s o) o
  have hlast : Silent (releaseLink .moonraker (releaseLink .klippy s o) o) (released s o) :=
    .modify _ o (fun _ => rfl) fun _ => rfl
  have hklippy : Evolves allowed s (releaseLink .klippy s o) :=
    evolves_releaseLink .klippy s fun hne hother t ht => hidle (.inr (.inl ⟨hne, hother⟩)) t ht
  have hmoonraker : Evolves allowed (releaseLink .klippy s o)
      (releaseLink .moonraker (releaseLink .klippy s o) o) := by
    refine evolves_releaseLink .moonraker _ fun hne hother t ht => hidle ?_ t (hk.trans ht)
    rw [releaseLink_link_ne _ _ (by decide)] at hne
    -- Klippy was released just before, or its flag was down
    refine .inr (.inr ⟨hne, ?_⟩)
    by_cases hc : ((s.heap o).link .klippy).connection = none
    · right
      unfold releaseLink at hother
      simpa [hc, Svc.other] using hother
    · exact .inl hc
  rw [runUnbind_eq]
  have hreleased := (hklippy.trans hmoonraker).trans (.silent hlast)
  split
  · next hstop =>
    refine hreleased.trans (.notify (hidle (.inl ?_) _ ((hk.trans hm).trans (hlast.beside o))))
    rcases (released_releasing (s := s) (o := o)).state with ⟨hst, -⟩ | ⟨hst, -⟩
    · rw [← hst, hstop]
    · rw [hst] at hstop
      cases hstop
  · exact hreleased

/-! ## A reload -/

/-- Reading rows changes nothing for the objects there are. -/
theorem Loaded.awake {rows : List Row} {os : List Oid} (h : Loaded s rows t os) (ha : Awake s) :
    Awake t where
  indexed := (h.looked ha.indexed "").indexed ha.indexed
  live x k hk := by
    rw [h.eq] at hk
    exact (ha.live x k hk).trans_le h.created
  awake x k hk := by
    rw [h.eq] at hk
    rw [stateOf, h.heap x (ha.live x k hk)]
    exact ha.awake x k hk

/-- The objects of a load have no slot. -/
theorem Loaded.noKey {rows : List Row} {os : List Oid} (h : Loaded s rows t os) (ha : Awake s)
    (ho : o ∈ os) : t.slots.lookup o = none := by
  rw [h.eq]
  cases hk : s.slots.lookup o with
  | none => rfl
  | some k => exact absurd (ha.live o k hk) (Nat.not_lt.mpr (h.range o ho).1)

/-- They are idle. -/
theorem Loaded.idle {rows : List Row} {os : List Oid} (h : Loaded s rows t os) (ho : o ∈ os) :
    t.stateOf o = .idle := by
  obtain ⟨row, -, hrow⟩ := h.fresh ho
  rw [stateOf, hrow]

/-- What a round of the first loop does to an object that has no slot yet. -/
structure AdoptedKey (s : Registry) (inst : Oid) (t : Registry) : Prop where
  awake : Awake t
  created : s.created ≤ t.created
  id : ∀ x < s.created, t.idOf x = s.idOf x
  state : ∀ x < s.created, x ≠ inst → t.stateOf x = s.stateOf x
  lookup : ∀ x < s.created, x ≠ inst → s.idOf x ≠ s.idOf inst →
    t.slots.lookup x = s.slots.lookup x
  none : ∀ x, x ≠ inst → s.slots.lookup x = none → t.slots.lookup x = none
  held : t.stateOf inst = .running → ∃ k, t.slots.lookup inst = some k
  notified : t.notified = s.notified
  registered : ∀ j, t.registered j = s.registered j ∨
    (s.registered j = .none ∧ ∃ w, t.registered j = some w ∧ s.created ≤ w ∧ w < t.created)
  fresh : ∀ x, s.created ≤ x → x < t.created → t.stateOf x = .idle
  key : ∀ x k, t.slots.lookup x = some k →
    (x = inst ∧ ∃ w, s.registered (s.idOf inst) = some w ∧ s.stateOf w ≠ .idle) ∨
      (x ≠ inst ∧ s.slots.lookup x = some k ∧ s.registered (s.idOf inst) ≠ some x)
  taken : t.stateOf inst ≠ .idle ↔
    ∃ w, s.registered (s.idOf inst) = some w ∧ s.stateOf w ≠ .idle
  autostart : ∀ x < s.created, (t.heap x).autostart = (s.heap x).autostart

/-- Looking for the old object keeps every entry with an object that is not idle. -/
theorem Looked.awake {i : String} {u : Registry} {r : Option Oid} (hl : Looked s i u r)
    (ha : Awake s) : Awake u where
  indexed := hl.indexed ha.indexed
  live x k hk := by
    rw [hl.eq] at hk
    exact (ha.live x k hk).trans_le hl.created
  awake x k hk := by
    rw [hl.eq] at hk
    rw [stateOf, hl.heap x (ha.live x k hk)]
    exact ha.awake x k hk

/-- Without an old object the new one stays idle and has no slot. -/
theorem AdoptedKey.of_none (ha : Awake s) {inst : Oid} {u : Registry} (hlive : inst < s.created)
    (hkey : s.slots.lookup inst = .none) (hidle : s.stateOf inst = .idle)
    (hl : Looked s (s.idOf inst) u .none) : AdoptedKey s inst u := by
  have hslots : u.slots = s.slots := by rw [hl.eq]
  have hstate : ∀ x < s.created, u.stateOf x = s.stateOf x := fun x hx => by
    rw [stateOf, hl.heap x hx, stateOf]
  have hnone : s.registered (s.idOf inst) = .none := by
    rcases hl.result with hres | ⟨hnone, -⟩
    · exact hres.symm
    · exact hnone
  constructor
  case awake => exact hl.awake ha
  case created => exact hl.created
  case id => exact fun x hx => by rw [idOf, hl.heap x hx, idOf]
  case state => exact fun x hx _ => hstate x hx
  case lookup => exact fun x _ _ _ => by rw [hslots]
  case none => exact fun x _ hx => by rwa [hslots]
  case held =>
    intro hrun
    rw [hstate inst hlive, hidle] at hrun
    cases hrun
  case notified => rw [hl.eq]
  case registered => exact hl.registered
  case fresh => exact fun x hx hx' => hl.idle hx hx'
  case key =>
    intro x k hk
    rw [hslots] at hk
    refine .inr ⟨?_, hk, ?_⟩
    · rintro rfl
      rw [hkey] at hk
      cases hk
    · rw [hnone]
      rintro ⟨⟩
  case taken =>
    constructor
    · intro hst
      exact absurd ((hstate inst hlive).trans hidle) hst
    · rintro ⟨w, hw, -⟩
      cases hnone.symm.trans hw
  case autostart => exact fun x hx => by rw [hl.heap x hx]

/-- With an old object the new one comes to its state, and takes its slot if that is not idle. -/
theorem AdoptedKey.of_some (ha : Awake s) {inst was : Oid} {u : Registry} (hlive : inst < s.created)
    (hkey : s.slots.lookup inst = .none) (hl : Looked s (s.idOf inst) u (some was)) :
    AdoptedKey s inst (u.adopt inst was) := by
  have hu := hl.awake ha
  have hslots : u.slots = s.slots := by rw [hl.eq]
  have hid : ∀ x < s.created, u.idOf x = s.idOf x := fun x hx => by
    rw [idOf, hl.heap x hx, idOf]
  have hstate : ∀ x < s.created, u.stateOf x = s.stateOf x := fun x hx => by
    rw [stateOf, hl.heap x hx, stateOf]
  obtain ⟨hwas, -, hfound⟩ := hl.found ha.indexed
  -- an old object that is not idle is the registered one
  have hregistered : u.stateOf was ≠ .idle ↔
      ∃ w, s.registered (s.idOf inst) = some w ∧ s.stateOf w ≠ .idle := by
    rcases hfound with ⟨hreg, hlt, -⟩ | ⟨hnone, -, row, hrow⟩
    · simp [hreg, hstate was hlt]
    · simp [hnone, stateOf, hrow]
  have hkeys : ∀ x k, (u.adopt inst was).slots.lookup x = some k →
      (x = inst ∧ u.stateOf was ≠ .idle) ∨
        (x ≠ inst ∧ x ≠ was ∧ u.slots.lookup x = some k) := by
    intro x k hk
    rw [lookup_adopt] at hk
    split at hk
    · next h => exact .inl h
    · split at hk
      · cases hk
      · next hx =>
        refine .inr ⟨?_, hx, hk⟩
        rintro rfl
        rw [hslots, hkey] at hk
        cases hk
  constructor
  case awake =>
    refine ⟨hu.indexed.congr (u.adopt_created inst was).ge (fun x _ => u.idOf_adopt inst was x)
      (u.adopt_instances inst was) (u.adopt_instanceMap inst was), fun x k hk => ?_,
      fun x k hk => ?_⟩
    · rw [adopt_created]
      rcases hkeys x k hk with ⟨rfl, -⟩ | ⟨-, -, hk⟩
      · exact hlive.trans_le hl.created
      · exact hu.live x k hk
    · rcases hkeys x k hk with ⟨rfl, hne⟩ | ⟨hne, -, hk⟩
      · rw [stateOf_adopt_self]
        exact hne
      · rw [stateOf_adopt_of_ne u was hne]
        exact hu.awake x k hk
  case created => exact hl.created.trans (u.adopt_created inst was).ge
  case id => exact fun x hx => (u.idOf_adopt inst was x).trans (hid x hx)
  case state => exact fun x hx hne => (stateOf_adopt_of_ne u was hne).trans (hstate x hx)
  case lookup =>
    intro x hx hne hidne
    rw [lookup_adopt, if_neg fun h => hne h.1, if_neg, hslots]
    rintro rfl
    exact hidne ((hid x hx).symm.trans hwas)
  case none =>
    intro x hne hx
    rw [lookup_adopt, if_neg fun h => hne h.1]
    split
    · rfl
    · rwa [hslots]
  case held =>
    intro hrun
    rw [stateOf_adopt_self] at hrun
    rw [lookup_adopt, if_pos ⟨rfl, by rw [hrun]; decide⟩]
    exact ⟨_, rfl⟩
  case notified => rw [adopt_notified, hl.eq]
  case registered =>
    intro j
    rw [registered_adopt, adopt_created]
    exact hl.registered j
  case fresh =>
    intro x hx hx'
    rw [adopt_created] at hx'
    have hne : x ≠ inst := by
      rintro rfl
      exact absurd hlive (Nat.not_lt.mpr hx)
    rw [stateOf_adopt_of_ne u was hne]
    exact hl.idle hx hx'
  case key =>
    intro x k hk
    rcases hkeys x k hk with ⟨hx, hst⟩ | ⟨hx, hxwas, hk⟩
    · exact .inl ⟨hx, hregistered.mp hst⟩
    · refine .inr ⟨hx, hslots ▸ hk, fun hregx => ?_⟩
      -- the registered object's key is taken away
      rcases hfound with ⟨hreg, -⟩ | ⟨hnone, -⟩
      · exact hxwas (Option.some.inj (hregx.symm.trans hreg))
      · cases hnone.symm.trans hregx
  case taken =>
    rw [stateOf_adopt_self]
    exact hregistered
  case autostart =>
    intro x hx
    by_cases hxi : x = inst
    · subst hxi
      rw [heap_adopt_self, hl.heap x hx]
    · rw [heap_adopt_of_ne u was hxi, hl.heap x hx]

/-- One round of the first loop.
SOURCE: KlipperInstance.kt:252-268 -/
theorem adoptRow_key (ha : Awake s) {inst : Oid} (hlive : inst < s.created)
    (hkey : s.slots.lookup inst = none) (hidle : s.stateOf inst = .idle)
    (db : Option (List Row)) : AdoptedKey s inst (adoptRow db s inst) := by
  obtain ⟨u, r, hl, hround⟩ := adoptRow_spec inst ha.indexed db
  rw [hround]
  cases r with
  | none => exact .of_none ha hlive hkey hidle hl
  | some was => exact .of_some ha hlive hkey hl

/-- **The first loop**: afterwards every running object of the load has a slot. -/
theorem foldl_adoptRow_key (db : Option (List Row)) (rest : List Oid) (ha : Awake s)
    (hlive : ∀ o ∈ rest, o < s.created) (hkey : ∀ o ∈ rest, s.slots.lookup o = none)
    (hidle : ∀ o ∈ rest, s.stateOf o = .idle) (hnodup : (rest.map s.idOf).Nodup) :
    let t := rest.foldl (adoptRow db) s
    Awake t ∧ s.created ≤ t.created ∧ (∀ x < s.created, t.idOf x = s.idOf x) ∧
      t.notified = s.notified ∧
      (∀ x < s.created, x ∉ rest → s.idOf x ∉ rest.map s.idOf →
        t.stateOf x = s.stateOf x ∧ t.slots.lookup x = s.slots.lookup x) ∧
      ∀ o ∈ rest, t.stateOf o = .running → ∃ k, t.slots.lookup o = some k := by
  induction rest generalizing s with
  | nil =>
    exact ⟨ha, le_rfl, fun _ _ => rfl, rfl, fun _ _ _ _ => ⟨rfl, rfl⟩,
      fun o ho => (List.not_mem_nil ho).elim⟩
  | cons inst rest ih =>
    rw [List.map_cons, List.nodup_cons] at hnodup
    have hinst := hlive inst List.mem_cons_self
    have hone := adoptRow_key ha hinst (hkey inst List.mem_cons_self)
      (hidle inst List.mem_cons_self) db
    have hne : ∀ o ∈ rest, o ≠ inst := by
      rintro o ho rfl
      exact hnodup.1 (List.mem_map_of_mem ho)
    have hrest : ∀ o ∈ rest, o < s.created := fun o ho => hlive o (List.mem_cons_of_mem _ ho)
    have hids : rest.map (adoptRow db s inst).idOf = rest.map s.idOf :=
      List.map_congr_left fun o ho => hone.id o (hrest o ho)
    obtain ⟨hawake, hcreated, hid, hnotified, hsame, hheld⟩ :=
      ih hone.awake (fun o ho => (hrest o ho).trans_le hone.created)
        (fun o ho => hone.none o (hne o ho) (hkey o (List.mem_cons_of_mem _ ho)))
        (fun o ho => by
          rw [hone.state o (hrest o ho) (hne o ho)]
          exact hidle o (List.mem_cons_of_mem _ ho)) (by rw [hids]; exact hnodup.2)
    rw [List.foldl_cons]
    refine ⟨hawake, hone.created.trans hcreated, fun x hx => ?_, hnotified.trans hone.notified,
      fun x hx hmem hidx => ?_, fun o ho hrun => ?_⟩
    · rw [hid x (hx.trans_le hone.created), hone.id x hx]
    · rw [List.map_cons, List.mem_cons, not_or] at hidx
      rw [List.mem_cons, not_or] at hmem
      obtain ⟨hst, hlk⟩ := hsame x (hx.trans_le hone.created) hmem.2
        (by rw [hids, hone.id x hx]; exact hidx.2)
      exact ⟨hst.trans (hone.state x hx hmem.1), hlk.trans (hone.lookup x hx hmem.1 hidx.1)⟩
    · rcases List.mem_cons.mp ho with rfl | ho
      · -- the later rounds leave the object alone
        obtain ⟨hst, hlk⟩ := hsame o (hinst.trans_le hone.created)
          (fun hmem => hne o hmem rfl) (by rw [hids, hone.id o hinst]; exact hnodup.1)
        rw [hst] at hrun
        rw [hlk]
        exact hone.held hrun
      · exact hheld o ho hrun

/-- **The second loop** leaves the loaded ids alone. -/
theorem foldl_dropMissing_key (ids : List String) (ks : List Oid) (ha : Awake s) :
    let t := ks.foldl (dropMissing ids) s
    Awake t ∧ (Lawful s → Lawful t) ∧ t.created = s.created ∧ (∀ x, t.idOf x = s.idOf x) ∧
      ∀ x, s.idOf x ∈ ids → t.heap x = s.heap x ∧ t.slots.lookup x = s.slots.lookup x := by
  induction ks generalizing s with
  | nil => exact ⟨ha, id, rfl, fun _ => rfl, fun _ _ => ⟨rfl, rfl⟩⟩
  | cons was ks ih =>
    have hround : dropMissing ids s was = if s.idOf was ∈ ids then s
        else { s with slots := s.slots.erase was }.stop was := rfl
    rw [List.foldl_cons, hround]
    split
    · exact ih ha
    · next hmiss =>
      set u : Registry := { s with slots := s.slots.erase was } with hu
      have hlookup : ∀ x k, u.slots.lookup x = some k → s.slots.lookup x = some k := by
        intro x k hk
        by_cases hx : x = was
        · subst hx
          rw [hu, AList.lookup_erase] at hk
          cases hk
        · rwa [hu, AList.lookup_erase_ne hx] at hk
      have hua : Awake u := ⟨⟨ha.indexed.instances, ha.indexed.instanceMap⟩,
        fun x k hk => ha.live x k (hlookup x k hk), fun x k hk => ha.awake x k (hlookup x k hk)⟩
      have hstop : Evolves (fun s o st => Legal (s.stateOf o) st) u (u.stop was) :=
        evolves_stop (fun t ht => by rcases ht with ht | ht <;> rw [ht] <;> decide) u
      obtain ⟨hawake, hlaw, hcreated, hid, hkeep⟩ :=
        ih (hstop.awake hua)
      have hlocal := Local.stop (s := u) was
      refine ⟨hawake, fun hl => hlaw (hstop.lawful (fun _ _ _ h => h) hl),
        hcreated.trans hlocal.created, fun x => (hid x).trans (hlocal.id x),
        fun x hx => ?_⟩
      obtain ⟨hheap, hlk⟩ := hkeep x (by rw [hlocal.id]; exact hx)
      have hidne : u.idOf x ∉ ({u.idOf was} : Set String) := by
        rintro heq
        exact hmiss (heq ▸ hx)
      rw [hheap, hlk, hlocal.heap x hidne, hlocal.lookup x hidne]
      refine ⟨rfl, ?_⟩
      rw [hu, AList.lookup_erase_ne]
      rintro rfl
      exact hmiss hx

/-- The autostart loop only calls `start`. -/
theorem evolves_autostartAll (dirs : String → Dirs) (os : List Oid)
    (hlive : ∀ o ∈ os, o < s.created) : Evolves Orderable s (autostartAll dirs s os).1 := by
  induction os generalizing s with
  | nil => exact .refl s
  | cons inst os ih =>
    unfold autostartAll
    split
    · have hstart : Evolves Orderable s (s.start inst (dirs (s.idOf inst))).1 :=
        evolves_start (hlive inst List.mem_cons_self) _ (fun _ h => h) fun _ h => h
      have hcreated := (Local.start (s := s) inst (dirs (s.idOf inst))).created
      rcases hrun : s.start inst (dirs (s.idOf inst)) with ⟨t, outcome⟩
      rw [hrun] at hstart hcreated
      cases outcome with
      | returned =>
        refine hstart.trans (ih fun o ho => ?_)
        rw [hcreated]
        exact hlive o (List.mem_cons_of_mem _ ho)
      | threw => exact hstart
    · exact ih fun o ho => hlive o (List.mem_cons_of_mem _ ho)

/-- **A reload** makes the loaded objects current; those that run have their slots.
SOURCE: KlipperInstance.kt:249-291 -/
theorem reload_held (ha : Awake s) {rows : List Row} {os : List Oid}
    (hload : Loaded s rows t os) (hnodup : (rows.map Row.id).Nodup) (db : Option (List Row))
    (hash : Oid → Nat) (dirs : String → Dirs) :
    Awake (t.onInstancesLoadedFromDB os db hash dirs).1 ∧
      (Lawful s → Lawful (t.onInstancesLoadedFromDB os db hash dirs).1) ∧
      Held (t.onInstancesLoadedFromDB os db hash dirs).1 := by
  have hta := hload.awake ha
  have htl : Lawful s → Lawful t := fun hl => by
    rw [hload.eq]
    exact hl
  have hlive : ∀ o ∈ os, o < t.created := fun o ho => (hload.range o ho).2
  obtain ⟨ha₁, hcreated₁, hid₁, hnotified₁, -, hheld₁⟩ := foldl_adoptRow_key db os hta hlive
    (fun o ho => hload.noKey ha ho) (fun o ho => hload.idle ho) (by rw [hload.ids]; exact hnodup)
  set s₁ := os.foldl (adoptRow db) t with hs₁
  have hl₁ : Lawful s → Lawful s₁ := fun hl => by
    unfold Lawful
    rw [hnotified₁]
    exact htl hl
  obtain ⟨ha₂, hl₂, hcreated₂, hid₂, hkeep₂⟩ := foldl_dropMissing_key (os.map s₁.idOf)
    (s₁.slots.keys.insertionSort fun a b => hash a ≤ hash b) ha₁
  set s₂ := (s₁.slots.keys.insertionSort fun a b => hash a ≤ hash b).foldl
    (dropMissing (os.map s₁.idOf)) s₁ with hs₂
  have hrun : t.onInstancesLoadedFromDB os db hash dirs =
      autostartAll dirs (s₂.refresh os) os := rfl
  have hlive₂ : ∀ o ∈ os, o < s₂.created := fun o ho => by
    rw [hcreated₂]
    exact (hlive o ho).trans_le hcreated₁
  have ha₃ : Awake (s₂.refresh os) := ⟨⟨hlive₂, fun _ _ h => by cases h⟩, ha₂.live, ha₂.awake⟩
  have hheld₃ : Held (s₂.refresh os) := by
    intro i x hx hrunning
    rw [registered_eq] at hx
    obtain ⟨hmem, -⟩ := findById_some hx
    obtain ⟨hheap, hlk⟩ := hkeep₂ x (List.mem_map_of_mem hmem)
    have hst₁ : s₁.stateOf x = .running := by
      rw [stateOf, ← hheap]
      exact hrunning
    obtain ⟨k, hk⟩ := hheld₁ x hmem hst₁
    exact ⟨k, hlk.trans hk⟩
  have hauto := evolves_autostartAll (s := s₂.refresh os) dirs os hlive₂
  rw [hrun]
  exact ⟨hauto.awake ha₃, fun hl => hauto.lawful (fun _ _ _ h => h.legal) (hl₂ (hl₁ hl)),
    hauto.held ha₃.indexed hheld₃⟩

/-! ## Runs -/

/-- The object of the unbind block at the head of the queue. -/
def unbinding : List Block → Option Oid
  | .unbind o :: _ => some o
  | _ => none

/-- The steps that announce only legal changes and leave the running current objects in
their slots: a service is reported connected only to an object that is coming up and, when
it is its id's current one, has a slot, or while the other service is not connected; an
object becomes idle only when no other object of its id is current and running. -/
def Graceful (s : Registry) : Action → Prop
  | .onServiceConnected c => ∀ b ∈ s.bindingOf c,
      ((s.heap b.owner).link b.svc.other).connected = true → s.Orderable b.owner .running
  | .onServiceDisconnected c => ∀ b ∈ s.bindingOf c,
      ((s.heap b.owner).link b.svc.other).connected = false → s.Sole b.owner
  | .runPosted => ∀ o ∈ unbinding s.queue, s.BecomesIdle o → s.Sole o
  | _ => True

instance (s : Registry) (o : Oid) : Decidable (s.Orderable o .running) :=
  inferInstanceAs (Decidable ((_ ∨ _) ∧ (_ → _)))

instance (s : Registry) (a : Action) : Decidable (s.Graceful a) :=
  match a with
  | .onServiceConnected c => inferInstanceAs (Decidable (∀ b ∈ s.bindingOf c, (_ → _)))
  | .onServiceDisconnected c => inferInstanceAs (Decidable (∀ b ∈ s.bindingOf c, (_ → _)))
  | .runPosted => inferInstanceAs (Decidable (∀ o ∈ unbinding s.queue, (_ → _)))
  | .start _ _ => inferInstanceAs (Decidable True)
  | .stop _ => inferInstanceAs (Decidable True)
  | .onInstancesLoadedFromDB _ _ _ _ => inferInstanceAs (Decidable True)

/-- Announcing anything is allowed. -/
def anything : Registry → Oid → State → Prop := fun _ _ _ => True

/-- Every step but a reload is a sequence of elementary changes. `hconnected`, `hidle` and
`hunbind` say which announcements its callbacks and blocks make. -/
theorem evolves_step {a : Action} (ha : Awake s) (hs : step s a = some t)
    (hreload : ∀ rows db hash dirs, a ≠ .onInstancesLoadedFromDB rows db hash dirs)
    (hstart : ∀ (s : Registry) o, s.stateOf o = .idle → allowed s o .starting)
    (hstop : ∀ (s : Registry) o, s.stateOf o = .starting ∨ s.stateOf o = .running →
      allowed s o .stopping)
    (hconnected : ∀ c, a = .onServiceConnected c → ∀ b ∈ s.bindingOf c,
      ((s.heap b.owner).link b.svc.other).connected = true →
        ∀ u, Silent s u → allowed u b.owner .running)
    (hdisconnected : ∀ c, a = .onServiceDisconnected c → ∀ b ∈ s.bindingOf c,
      ((s.heap b.owner).link b.svc.other).connected = false →
        ∀ u, Beside b.owner s u → allowed u b.owner .idle)
    (hunbind : a = .runPosted → ∀ o q, s.queue = .unbind o :: q → s.BecomesIdle o →
      ∀ u, Beside o s u → allowed u o .idle) : Evolves allowed s t := by
  unfold step at hs
  split at hs
  · cases hs
  cases a with
  | start o dirs =>
    simp only [Option.ite_none_right_eq_some, Option.some.injEq] at hs
    obtain ⟨hlt, rfl⟩ := hs
    exact evolves_start hlt dirs (fun s => hstart s o) fun s => hstop s o
  | stop o =>
    simp only [Option.ite_none_right_eq_some, Option.some.injEq] at hs
    obtain ⟨-, rfl⟩ := hs
    exact evolves_stop (fun s => hstop s o) s
  | onInstancesLoadedFromDB rows db hash dirs => exact absurd rfl (hreload rows db hash dirs)
  | runPosted =>
    cases hq : s.queue with
    | nil => simp [hq] at hs
    | cons b q =>
      simp only [hq, Option.some.injEq] at hs
      subst hs
      set p : Registry := { s with queue := q } with hp
      have hpop : Silent s p := .of_eq rfl rfl rfl rfl rfl rfl
      have hpa : Awake p := (Evolves.silent hpop : Evolves anything s p).awake ha
      refine (Evolves.silent hpop).trans ?_
      cases b with
      | bind o instId => exact .silent (silent_runBind p o instId)
      | unbind o =>
        exact evolves_runUnbind p o fun hidle u hu =>
          hunbind rfl o q hq hidle u ((hpop.beside o).trans hu)
      | stopServers => exact .silent (silent_stopServers hpa)
      | bindServers => exact .silent (silent_runBindServers p)
  | onServiceConnected c =>
    obtain ⟨b, hb, rfl⟩ := Option.map_eq_some_iff.mp hs
    exact evolves_onServiceConnected s b fun hc u hu => hconnected c rfl b hb hc u hu
  | onServiceDisconnected c =>
    obtain ⟨b, hb, rfl⟩ := Option.map_eq_some_iff.mp hs
    have hset : Silent s (s.setConnected b.conn false) := .of_eq rfl rfl rfl rfl rfl rfl
    exact (Evolves.silent hset).trans (evolves_onUnbound b.svc _ fun hc =>
      hdisconnected c rfl b hb hc _ ((hset.beside _).trans ((Silent.modifyLink ..).beside _)))

/-- A reload is the load of its rows and `onInstancesLoadedFromDB`. -/
theorem step_reload {rows : List Row} {db : Option (List Row)} {hash : Oid → Nat}
    {dirs : String → Dirs} (hs : step s (.onInstancesLoadedFromDB rows db hash dirs) = some t) :
    (rows.map Row.id).Nodup ∧
      t = ((s.loadRows rows).1.onInstancesLoadedFromDB (s.loadRows rows).2 db hash dirs).1 := by
  unfold step at hs
  split at hs
  · cases hs
  · simp only [Option.ite_none_right_eq_some, Option.some.injEq] at hs
    exact ⟨hs.1, hs.2.symm⟩

/-- **No idle object is ever a key**: no step makes one. -/
theorem awake_step {a : Action} (ha : Awake s) (hs : step s a = some t) : Awake t := by
  by_cases hreload : ∃ rows db hash dirs, a = .onInstancesLoadedFromDB rows db hash dirs
  · obtain ⟨rows, db, hash, dirs, rfl⟩ := hreload
    obtain ⟨hnodup, rfl⟩ := step_reload hs
    exact (reload_held ha (loadRows_spec s rows) hnodup db hash dirs).1
  · have hother : ∀ rows db hash dirs, a ≠ .onInstancesLoadedFromDB rows db hash dirs :=
      fun rows db hash dirs h => hreload ⟨rows, db, hash, dirs, h⟩
    have hevolves : Evolves anything s t := evolves_step ha hs hother (fun _ _ _ => trivial)
      (fun _ _ _ => trivial) (fun _ _ _ _ _ _ _ => trivial) (fun _ _ _ _ _ _ _ => trivial)
      fun _ _ _ _ _ _ _ => trivial
    exact hevolves.awake ha

/-- Without an entry no object has to be up. -/
theorem awake_empty : Awake empty :=
  ⟨⟨fun _ ho => (List.not_mem_nil ho).elim, nofun⟩, nofun, nofun⟩

/-- What holds in every graceful run. -/
structure Proper (s : Registry) : Prop where
  awake : Awake s
  lawful : Lawful s
  held : Held s

/-- **One graceful step.** -/
theorem Proper.step {a : Action} (h : Proper s) (hg : s.Graceful a)
    (hs : Registry.step s a = some t) : Proper t := by
  by_cases hreload : ∃ rows db hash dirs, a = .onInstancesLoadedFromDB rows db hash dirs
  · obtain ⟨rows, db, hash, dirs, rfl⟩ := hreload
    obtain ⟨hnodup, rfl⟩ := step_reload hs
    obtain ⟨hawake, hlawful, hheld⟩ :=
      reload_held h.awake (loadRows_spec s rows) hnodup db hash dirs
    exact ⟨hawake, hlawful h.lawful, hheld⟩
  · have hother : ∀ rows db hash dirs, a ≠ .onInstancesLoadedFromDB rows db hash dirs :=
      fun rows db hash dirs h => hreload ⟨rows, db, hash, dirs, h⟩
    have hevolves : Evolves Orderable s t := by
      refine evolves_step h.awake hs hother (fun _ _ h => h) (fun _ _ h => h) ?_ ?_ ?_
      · rintro c rfl b hb hc u hu
        obtain ⟨hstate, hkey⟩ := hg b hb hc
        refine ⟨by rwa [hu.state], fun hreg => ?_⟩
        rw [hu.id, hu.registered] at hreg
        rw [mem_keys_iff_lookup, hu.lookup, ← mem_keys_iff_lookup]
        exact hkey hreg
      · rintro c rfl b hb hc u hu
        exact (Sole.beside hu).mpr (hg b hb hc)
      · rintro rfl o q hq hidle u hu
        have hmem : o ∈ unbinding s.queue := by
          rw [hq]
          rfl
        exact (Sole.beside hu).mpr (hg o hmem hidle)
    exact ⟨hevolves.awake h.awake, hevolves.lawful (fun _ _ _ h => h.legal) h.lawful,
      hevolves.held h.awake.indexed h.held⟩

/-- **Legal transitions.** In every run no idle object is a key of the slots. In every run
of graceful steps each call of `notifyStateChanged` repeats a state or makes a legal change,
and every running object that is its id's current one is a key.
SOURCE: KlipperInstance.kt:93-194, 250-291 -/
theorem legal_transitions {acts : List Action} :
    (run step empty acts = some s → ∀ o ∈ s.slots.keys, s.stateOf o ≠ .idle) ∧
      (run (restrict step Graceful) empty acts = some s →
        (∀ n ∈ s.notified, Legal n.before n.after) ∧
          ∀ i o, s.registered i = some o → s.stateOf o = .running → o ∈ s.slots.keys) := by
  constructor
  · intro hrun o ho
    have ha : Awake s := run_invariant (fun _ _ _ h hs => awake_step h hs) awake_empty hrun
    obtain ⟨k, hk⟩ := (mem_keys_iff_lookup o).mp ho
    exact ha.awake o k hk
  · intro hrun
    have hempty : Proper empty :=
      ⟨awake_empty, fun _ h => (List.not_mem_nil h).elim, fun _ _ h => by cases h⟩
    have h : Proper s :=
      run_restrict_invariant (fun _ _ _ h hg hs => Proper.step h hg hs) hempty hrun
    exact ⟨h.lawful, fun i o ho hrunning =>
      (mem_keys_iff_lookup o).mpr (h.held i o ho hrunning)⟩

/-- Two printers come up and are loaded again while they run; a service of one is lost,
comes back, and the other printer is stopped. -/
def gracefulActions : List Action :=
  [reloadOf twoRows, startOf 0, .runPosted, .runPosted, .runPosted, .onServiceConnected 0,
    .onServiceConnected 1, .onServiceConnected 2, .onServiceConnected 3, reloadOf twoRows,
    .onServiceDisconnected 2, .stop 3, .runPosted, .runPosted, .runPosted, .runPosted]

/-- In this run a printer comes up, another is stopped, and the one left running has its
slot. -/
theorem legal_transitions_two_printers :
    ∃ s, run step empty gracefulActions = some s ∧ s.notified.length = 6 ∧
      (∀ o ∈ s.slots.keys, s.stateOf o ≠ .idle) ∧
      (∀ n ∈ s.notified, Legal n.before n.after) ∧
      ∀ i o, s.registered i = some o → s.stateOf o = .running → o ∈ s.slots.keys := by
  have hrun : (run (restrict step Graceful) empty gracefulActions).any
      (fun s => s.notified.length = 6) = true := by
    decide +kernel
  obtain ⟨s, hs, hlength⟩ := (Option.any_eq_true _ _).mp hrun
  have hplain := run_of_run_restrict hs
  exact ⟨s, hplain, of_decide_eq_true hlength, legal_transitions.1 hplain, legal_transitions.2 hs⟩

/-- A printer is stopped while it comes up, and its services report late. -/
def lateActions : List Action :=
  [reloadOf [⟨"A", "a", "PRINTER", false⟩], .runPosted, startOf 0, .runPosted, .stop 0,
    .onServiceConnected 0, .onServiceConnected 1]

/-- The late callbacks announce `RUNNING` for an object that is stopping.
SOURCE: KlipperInstance.kt:99-104, 118-123 -/
theorem transitions_not_legal :
    ¬∀ acts s, run step empty acts = some s → ∀ n ∈ s.notified, Legal n.before n.after := by
  intro h
  have hrun : (run step empty lateActions).any (fun s =>
      ∃ n ∈ s.notified, ¬Legal n.before n.after) = true := by
    decide +kernel
  obtain ⟨s, hs, hillegal⟩ := (Option.any_eq_true _ _).mp hrun
  obtain ⟨n, hn, hnot⟩ := of_decide_eq_true hillegal
  exact hnot (h _ s hs n hn)

end Registry

end Cream.Model
