import Cream.Analysis.StoreRefinement
import Cream.Model.AppState

/-!
# The screens show what the registry has

Of the events that are still to be handed over, the last one about an id decides what is
shown of it in the end (`lastWord`): a refresh looks the id up, a change of state says one.
A step is `Told` when what it fires about each id ends with the state the id's current object
has then, or says nothing where that state has not changed. The posted blocks, the callbacks
and the calls of `start` and `stop` announce states of one object (`Announces`), so they are
told when that object is current, or the current one has the announced state anyway
(`MayTell`). A reload always is, since it ends with a refresh and the announcements of
current objects. `Converging` is the invariant of the process, and `ui_converges` reads the
shown values from it once nothing is pending.
-/

set_option autoImplicit false

namespace Cream.Model

open Cream.Library
open Cream.Library.SqlTable (Table)
open Cream.Library.Transition

namespace Registry

variable {s t u : Registry} {o : Oid} {a b : Option State}

/-! ## The last word about an id -/

/-- What an event says of an id: nothing, to look it up (`some none`), or its state. -/
def word (j : String) : Event → Option (Option State)
  | .instanceStateChanged id state => if id = j then some (some state) else none
  | .instancesRefreshed => some none
  | .webStateChanged _ => none

/-- The last word of events in the order they were fired. -/
def lastWord (j : String) : List Event → Option (Option State)
  | [] => none
  | e :: es => (lastWord j es).or (word j e)

/-- What was fired later has the last word. -/
theorem lastWord_append (j : String) (es fs : List Event) :
    lastWord j (es ++ fs) = (lastWord j fs).or (lastWord j es) := by
  induction es with
  | nil => exact (Option.or_none).symm
  | cons e es ih =>
    rw [List.cons_append, lastWord, ih, lastWord, Option.or_assoc]

/-- The state of an id's current object. -/
def current (s : Registry) (j : String) : Option State :=
  (s.findById s.instances j).map s.stateOf

/-- What has been fired on the way tells of every change: of the objects and their order by a
refresh, of an id's state by the last word about it. -/
def Told (s t : Registry) : Prop :=
  ∃ F, t.fired = s.fired ++ F ∧ (.instancesRefreshed ∈ F ∨ t.instances = s.instances) ∧
    ∀ j, (lastWord j F = none → t.current j = s.current j) ∧
      ∀ st, lastWord j F = some (some st) → t.current j = some st

/-- Without a change there is nothing to tell. -/
theorem Told.refl (s : Registry) : Told s s :=
  ⟨[], (List.append_nil _).symm, .inr rfl, fun _ => ⟨fun _ => rfl, fun _ h => (nomatch h)⟩⟩

/-- What two steps have told is told by both together. -/
theorem Told.trans (h : Told s t) (h' : Told t u) : Told s u := by
  obtain ⟨F, hF, hlist, hword⟩ := h
  obtain ⟨G, hG, hlist', hword'⟩ := h'
  refine ⟨F ++ G, by rw [hG, hF, List.append_assoc], ?_, fun j => ?_⟩
  · rcases hlist' with hmem | hsame
    · exact .inl (List.mem_append_right F hmem)
    · exact hlist.imp (List.mem_append_left G) hsame.trans
  · rw [lastWord_append]
    cases hlast : lastWord j G with
    | none =>
      have hsame : u.current j = t.current j := (hword' j).1 hlast
      rw [Option.none_or, hsame]
      exact hword j
    | some w =>
      rw [Option.some_or]
      exact ⟨fun h => (nomatch h), fun st hst => (hword' j).2 st (hlast.trans hst)⟩

/-- A refresh that comes last makes up for whatever has happened before. -/
theorem Told.of_refreshed {F : List Event} (h : t.fired = s.fired ++ F ++ [.instancesRefreshed]) :
    Told s t := by
  have hlast : ∀ j, lastWord j (F ++ [.instancesRefreshed]) = some none := by
    intro j
    rw [lastWord_append]
    rfl
  refine ⟨F ++ [.instancesRefreshed], by rw [h, List.append_assoc],
    .inl (List.mem_append_right F List.mem_cons_self), fun j => ?_⟩
  rw [hlast j]
  exact ⟨fun h => (nomatch h), fun st h => (nomatch h)⟩

/-- The objects keep their ids. -/
theorem SameCaches.idOf (h : SameCaches s t) (x : Oid) : t.idOf x = s.idOf x :=
  congrArg Row.id (h.row x)

/-! ## Announcements of one object -/

/-- The step changes the state of one object only, to the last one it announces. -/
structure Announces (o : Oid) (a : Option State) (s t : Registry) : Prop where
  same : SameCaches s t
  state : ∀ x, t.stateOf x = if x = o then a.getD (s.stateOf o) else s.stateOf x
  events : ∃ F, t.fired = s.fired ++ F ∧
    ∀ j, lastWord j F = if s.idOf o = j then a.map some else none

/-- Of two steps about one object the later one announces its state. -/
theorem Announces.trans (h : Announces o a s t) (h' : Announces o b t u) :
    Announces o (b.or a) s u where
  same := h.same.trans h'.same
  state x := by
    rw [h'.state x, h.state x, h.state o, if_pos rfl]
    cases b with
    | none =>
      rw [Option.none_or]
      split <;> rfl
    | some st =>
      split <;> rfl
  events := by
    obtain ⟨F, hF, hword⟩ := h.events
    obtain ⟨G, hG, hword'⟩ := h'.events
    refine ⟨F ++ G, by rw [hG, hF, List.append_assoc], fun j => ?_⟩
    rw [lastWord_append, hword, hword', h.same.idOf]
    split
    · cases b <;> rfl
    · rfl

/-- A step that fires nothing announces nothing. -/
theorem Announces.silent (o : Oid) (hsame : SameCaches s t)
    (hstate : ∀ x, t.stateOf x = s.stateOf x) (hfired : t.fired = s.fired) :
    Announces o none s t where
  same := hsame
  state x := by
    rw [hstate x]
    split
    · next h => rw [h, Option.getD_none]
    · rfl
  events := ⟨[], by rw [hfired, List.append_nil], fun j => by split <;> rfl⟩

/-- Without a step nothing is announced. -/
theorem Announces.refl (o : Oid) (s : Registry) : Announces o none s s :=
  .silent o (.refl s) (fun _ => rfl) rfl

/-- `notifyStateChanged` announces the state it sets. -/
theorem Announces.notifyStateChanged (s : Registry) (o : Oid) (st : State) :
    Announces o (some st) s (s.notifyStateChanged o st) where
  same := .notifyStateChanged s o st
  state x := stateOf_notifyStateChanged s o x st
  events := by
    refine ⟨[.instanceStateChanged (s.idOf o) st], ?_, fun j => rfl⟩
    have hid : ∀ l : List Notification, idOf
        ({ s with notified := l }.modify o fun i => { i with state := st }) o = s.idOf o :=
      fun l => idOf_modify { s with notified := l } o o _ fun _ => rfl
    unfold Registry.notifyStateChanged
    simp only
    rw [hid]
    cases st <;> rfl

/-- A change of state, with other fields of the object assigned afterwards. -/
theorem Announces.after (h : Announces o a s t) {st : State} {r : Registry}
    (hsame : SameCaches (t.notifyStateChanged o st) r)
    (hstate : ∀ x, r.stateOf x = (t.notifyStateChanged o st).stateOf x)
    (hfired : r.fired = (t.notifyStateChanged o st).fired) : Announces o (some st) s r :=
  (h.trans (.notifyStateChanged t o st)).trans (.silent o hsame hstate hfired)

/-- `stop` announces that an object that is up is stopping. -/
theorem Announces.stop (s : Registry) (o : Oid) :
    Announces o (if s.stateOf o = .running ∨ s.stateOf o = .starting then some .stopping else none)
      s (s.stop o) := by
  split
  · next h =>
    rw [stop_eq s o h]
    exact (Announces.refl o s).after ⟨rfl, fun _ => rfl, rfl, rfl⟩ (fun _ => rfl) rfl
  · next h =>
    rw [stop_eq_self s o h]
    exact .refl o s

/-- A change that leaves the state of its object leaves all states. -/
theorem stateOf_modify (s : Registry) (o x : Oid) {f : KlipperInstance → KlipperInstance}
    (hf : ∀ i, (f i).state = i.state) : (s.modify o f).stateOf x = s.stateOf x := by
  unfold stateOf
  rw [modify_heap]
  by_cases hx : x = o
  · subst hx
    rw [Function.update_self, hf]
  · rw [Function.update_of_ne hx]

/-- The state a `start` of an idle object ends with: it gives up without its directories. -/
def startedAs (dirs : Dirs) : State :=
  if dirs.directory ∧ dirs.publicDirectory then .starting else .stopping

/-- `start` announces of an idle object how far it came. -/
theorem Announces.start (s : Registry) (o : Oid) (dirs : Dirs) :
    Announces o (if s.stateOf o = .idle then some (startedAs dirs) else none)
      s (s.start o dirs).1 := by
  have hslot : ∀ k : Int, ∀ x, ((s.notifyStateChanged o .starting).modify o
      fun i => { i with slot := k }).stateOf x = (s.notifyStateChanged o .starting).stateOf x :=
    fun k x => stateOf_modify _ o x fun _ => rfl
  have hrows : ∀ k : Int, SameCaches (s.notifyStateChanged o .starting)
      ((s.notifyStateChanged o .starting).modify o fun i => { i with slot := k }) :=
    fun k => .modify _ o fun _ => rfl
  rcases start_cases s o dirs with ⟨hst, heq⟩ | ⟨hst, hdirs, heq⟩ | ⟨hst, hd, hp, -, heq⟩ |
    ⟨k, hst, hd, hp, -, heq⟩
  · rw [heq, if_neg hst]
    exact .refl o s
  · have hstop := Announces.stop (s.notifyStateChanged o .starting) o
    rw [stateOf_notifyStateChanged, if_pos rfl, if_pos (.inr rfl)] at hstop
    rw [heq, if_pos hst, startedAs, if_neg hdirs]
    exact (Announces.notifyStateChanged s o .starting).trans hstop
  · rw [heq, if_pos hst, startedAs, if_pos ⟨hd, hp⟩]
    exact (Announces.refl o s).after (hrows _) (hslot _) rfl
  · rw [heq, if_pos hst, startedAs, if_pos ⟨hd, hp⟩]
    have hkeep := hrows k
    exact (Announces.refl o s).after ⟨hkeep.created, hkeep.row, hkeep.instances, hkeep.instanceMap⟩
      (hslot k) rfl

/-- What happens to a link is not announced. -/
theorem Announces.modifyLink (s : Registry) (o x : Oid) (svc : Svc) (f : Link → Link) :
    Announces o none s (s.modifyLink x svc f) :=
  .silent o (.modifyLink s x svc f) (fun y => stateOf_modify s x y fun _ => rfl) rfl

/-- An object is idle when the other service is not connected either. -/
theorem Announces.onUnbound (svc : Svc) (s : Registry) (o : Oid) :
    Announces o (if ((s.heap o).link svc.other).connected then none else some .idle)
      s (Registry.onUnbound svc s o) := by
  rw [onUnbound_eq]
  split
  · exact .modifyLink s o o svc _
  · exact (Announces.modifyLink s o o svc _).trans (.notifyStateChanged _ o .idle)

/-- At most idle is announced, and nothing when a condition does not hold. -/
def OnlyIdle (p : Prop) (a : Option State) : Prop :=
  (∀ st ∈ a, st = .idle) ∧ (¬p → a = none)

/-- Two steps that announce no more than idle do not together. -/
theorem OnlyIdle.or {p q : Prop} (h : OnlyIdle p a) (h' : OnlyIdle q b) : OnlyIdle (p ∨ q) (b.or a) := by
  refine ⟨fun st hst => ?_, fun hno => ?_⟩
  · rcases Option.or_eq_some_iff.mp hst with hst | ⟨-, hst⟩
    · exact h'.1 st hst
    · exact h.1 st hst
  · rw [h.2 fun hp => hno (.inl hp), h'.2 fun hq => hno (.inr hq)]
    rfl

/-- Releasing a link announces no more than idle, and that only of a connection. -/
theorem Announces.releaseLink (svc : Svc) (s : Registry) (o : Oid) :
    ∃ a, OnlyIdle (((s.heap o).link svc).connection ≠ none) a ∧
      Announces o a s (Registry.releaseLink svc s o) := by
  unfold Registry.releaseLink
  split
  · next hnone => exact ⟨none, ⟨fun _ h => (nomatch h), fun _ => rfl⟩, .refl o s⟩
  · next c hsome =>
    have hunbound := Announces.onUnbound svc (s.unbindService c) o
    have hbase : Announces o none s (s.unbindService c) :=
      .silent o ⟨rfl, fun _ => rfl, rfl, rfl⟩ (fun _ => rfl) rfl
    refine ⟨_, ⟨fun st hst => ?_, fun hno => absurd (by rw [hsome]; exact nofun) hno⟩,
      hbase.trans hunbound⟩
    rw [Option.or_none] at hst
    split at hst
    · cases hst
    · exact (Option.some.inj hst).symm

/-- The object has something to release: a connection, or its state. -/
def Releasable (s : Registry) (o : Oid) : Prop :=
  s.stateOf o = .stopping ∨ ((s.heap o).link .klippy).connection ≠ none ∨
    ((s.heap o).link .moonraker).connection ≠ none

instance (s : Registry) (o : Oid) : Decidable (s.Releasable o) :=
  inferInstanceAs (Decidable (_ ∨ _))

/-- The block of `stop` announces no more than idle, and that only when there is something to
release. -/
theorem Announces.runUnbind (s : Registry) (o : Oid) :
    ∃ a, OnlyIdle (s.Releasable o) a ∧ Announces o a s (s.runUnbind o) := by
  obtain ⟨k, hk, hklippy⟩ := Announces.releaseLink .klippy s o
  obtain ⟨m, hm, hmoonraker⟩ := Announces.releaseLink .moonraker (Registry.releaseLink .klippy s o) o
  rw [releaseLink_link_ne s o (by decide)] at hm
  have hlinks : Announces o (m.or k) s (released s o) := by
    have hclear : Announces o none (Registry.releaseLink .moonraker (Registry.releaseLink .klippy s o) o)
        (released s o) :=
      .silent o (.modify _ o fun _ => rfl) (fun x => stateOf_modify _ o x fun _ => rfl) rfl
    exact (hklippy.trans hmoonraker).trans hclear
  have honly := hk.or hm
  rw [runUnbind_eq]
  split
  · next hstopping =>
    refine ⟨_, ⟨fun st hst => ?_, fun hno => ?_⟩, hlinks.trans (.notifyStateChanged _ o .idle)⟩
    · exact (Option.some.inj hst).symm
    · -- with nothing released the state is still that of before
      have hnone : m.or k = none := honly.2 fun h => hno (.inr h)
      rw [hlinks.state, if_pos rfl, hnone, Option.getD_none] at hstopping
      exact absurd (.inl hstopping) hno
  · exact ⟨_, ⟨honly.1, fun hno => honly.2 fun h => hno (.inr h)⟩, hlinks⟩

/-- The second connected service makes the owner running. -/
theorem Announces.onServiceConnected (s : Registry) (b : Binding) :
    Announces b.owner (if ((s.heap b.owner).link b.svc.other).connected then some .running else none)
      s (s.onServiceConnected b) := by
  have hset : Announces b.owner none s (s.setConnected b.conn true) :=
    .silent _ ⟨rfl, fun _ => rfl, rfl, rfl⟩ (fun _ => rfl) rfl
  have hlink := hset.trans
    (.modifyLink _ b.owner b.owner b.svc fun l => { l with connected := true })
  have hother : ((((s.setConnected b.conn true).modifyLink b.owner b.svc fun l =>
      { l with connected := true }).heap b.owner).link b.svc.other) =
        (s.heap b.owner).link b.svc.other := by
    cases hsvc : b.svc <;> simp [Registry.modifyLink, Svc.other]
  unfold Registry.onServiceConnected
  simp only
  rw [hother]
  split
  · exact hlink.trans (.notifyStateChanged _ b.owner .running)
  · exact hlink

/-- The last lost service makes the owner idle. -/
theorem Announces.onServiceDisconnected (s : Registry) (b : Binding) :
    Announces b.owner (if ((s.heap b.owner).link b.svc.other).connected then none else some .idle)
      s (s.onServiceDisconnected b) := by
  have hset : Announces b.owner none s (s.setConnected b.conn false) :=
    .silent _ ⟨rfl, fun _ => rfl, rfl, rfl⟩ (fun _ => rfl) rfl
  have hunbound := hset.trans (.onUnbound b.svc (s.setConnected b.conn false) b.owner)
  rw [Option.or_none] at hunbound
  exact hunbound

/-- The web server's events say nothing of an instance. -/
theorem Announces.servers (o : Oid) (hsame : SameCaches s t)
    (hstate : ∀ x, t.stateOf x = s.stateOf x)
    (hfired : ∃ l : List State, t.fired = s.fired ++ l.map .webStateChanged) :
    Announces o none s t where
  same := hsame
  state := (Announces.silent (t := { t with fired := s.fired }) o
    ⟨hsame.created, hsame.row, hsame.instances, hsame.instanceMap⟩ hstate rfl).state
  events := by
    obtain ⟨l, hl⟩ := hfired
    refine ⟨_, hl, fun j => ?_⟩
    have hnone : ∀ l : List State, lastWord j (l.map .webStateChanged) = none := by
      intro l
      induction l with
      | nil => rfl
      | cons st l ih =>
        rw [List.map_cons, lastWord, ih]
        rfl
    rw [hnone l]
    split <;> rfl

/-- The servers are no concern of the objects. -/
theorem Announces.stopServers (s : Registry) (o : Oid) :
    Announces o none s s.stopServerServicesIfNoSlots := by
  refine .servers o (.stopServers s) (fun x => ?_) ?_
  · unfold stopServerServicesIfNoSlots
    split
    · rfl
    · cases s.webServerConnection <;> cases s.cameraServerConnection <;> rfl
  · unfold stopServerServicesIfNoSlots
    split
    · exact ⟨[], (List.append_nil _).symm⟩
    · cases s.webServerConnection with
      | none => exact ⟨[], by cases s.cameraServerConnection <;> exact (List.append_nil _).symm⟩
      | some c =>
        refine ⟨[.stopping, .idle], ?_⟩
        cases s.cameraServerConnection <;> exact List.append_assoc s.fired [_] [_]

/-- Nor is it when they are bound. -/
theorem Announces.runBindServers (s : Registry) (o : Oid) : Announces o none s s.runBindServers := by
  have hsame : SameCaches s s.runBindServers := .runBlock s .bindServers
  refine .servers o hsame (fun x => ?_) ?_
  · unfold Registry.runBindServers
    simp only
    split_ifs <;> rfl
  · unfold Registry.runBindServers
    simp only
    split_ifs
    · exact ⟨[.starting], rfl⟩
    · exact ⟨[.starting], rfl⟩
    · exact ⟨[], (List.append_nil _).symm⟩
    · exact ⟨[], (List.append_nil _).symm⟩

/-- The block of `start` announces nothing. -/
theorem Announces.runBind (s : Registry) (o x : Oid) (instId : String) :
    Announces o none s (s.runBind x instId) := by
  have hbind : ∀ (r : Registry) (svc : Svc), Announces o none r (r.bindService x svc instId) := by
    intro r svc
    have hlink := Announces.modifyLink r o x svc fun l =>
      { l with intent := some (r.heap x).slot, connection := some r.nextConn }
    exact ⟨.bindService r x svc instId, hlink.state, hlink.events⟩
  unfold Registry.runBind
  split
  · exact (hbind s .klippy).trans (hbind _ .moonraker)
  · exact .silent o ⟨rfl, fun _ => rfl, rfl, rfl⟩ (fun _ => rfl) rfl

/-! ## Told steps -/

/-- The object may announce a state of its id: it is the current one, or the current one has
that state. -/
def MayTell (s : Registry) (o : Oid) (st : State) : Prop :=
  o ∈ s.instances ∨ ∃ w ∈ s.instances, s.idOf w = s.idOf o ∧ s.stateOf w = st

instance (s : Registry) (o : Oid) (st : State) : Decidable (s.MayTell o st) :=
  inferInstanceAs (Decidable (_ ∨ ∃ _ ∈ _, _))

/-- What an object announces is told when it may announce it. -/
theorem Announces.told (h : Announces o a s t) (hnodup : (s.instances.map s.idOf).Nodup)
    (hmay : ∀ st ∈ a, s.MayTell o st) : Told s t := by
  obtain ⟨F, hF, hword⟩ := h.events
  have hcurrent : ∀ j, t.current j = (s.findById s.instances j).map t.stateOf := by
    intro j
    rw [current, h.same.instances, findById_congr fun x _ => h.same.idOf x]
  have hkeep : ∀ j, (s.idOf o = j → a = none) → t.current j = s.current j := by
    intro j hj
    rw [hcurrent, current]
    cases hfind : s.findById s.instances j with
    | none => rfl
    | some w =>
      rw [Option.map_some, Option.map_some, h.state]
      split
      · next hw =>
        subst hw
        rw [hj (findById_some hfind).2, Option.getD_none]
      · rfl
  refine ⟨F, hF, .inr h.same.instances, fun j => ⟨fun hnone => ?_, fun st hst => ?_⟩⟩
  · refine hkeep j fun hj => ?_
    rw [hword, if_pos hj] at hnone
    exact Option.map_eq_none_iff.mp hnone
  · rw [hword] at hst
    split at hst
    · next hj =>
      obtain ⟨st', ha, hst⟩ := Option.map_eq_some_iff.mp hst
      rw [Option.some.injEq] at hst
      subst hst hj
      rw [hcurrent]
      rcases hmay st' ha with hmem | ⟨w, hmem, hid, hw⟩
      · rw [findById_of_mem hnodup hmem, Option.map_some, h.state, if_pos rfl, ha, Option.getD_some]
      · rw [← hid, findById_of_mem hnodup hmem, Option.map_some, h.state]
        split
        · rw [ha, Option.getD_some]
        · rw [hw]
    · cases hst

/-- The steps that let only current objects announce what the current one is not. -/
def Candid (s : Registry) : Action → Prop
  | .start o dirs => s.stateOf o = .idle → s.MayTell o (startedAs dirs)
  | .stop o => s.stateOf o = .running ∨ s.stateOf o = .starting → s.MayTell o .stopping
  | .runPosted => ∀ b ∈ s.queue.head?, match b with
    | .unbind o => s.Releasable o → s.MayTell o .idle
    | _ => True
  | .onServiceConnected c => ∀ b ∈ s.bindingOf c,
    ((s.heap b.owner).link b.svc.other).connected = true → s.MayTell b.owner .running
  | .onServiceDisconnected c => ∀ b ∈ s.bindingOf c,
    ((s.heap b.owner).link b.svc.other).connected = false → s.MayTell b.owner .idle
  | .onInstancesLoadedFromDB .. => True

instance (s : Registry) : DecidablePred s.Candid
  | .start .. => inferInstanceAs (Decidable (_ → _))
  | .stop .. => inferInstanceAs (Decidable (_ → _))
  | .runPosted =>
    match h : s.queue.head? with
    | some (.unbind o) => decidable_of_iff (s.Releasable o → s.MayTell o .idle) <| by
        simp [Candid, h]
    | some (.bind ..) | some .stopServers | some .bindServers | none => isTrue <| by
        simp [Candid, h]
  | .onServiceConnected .. => inferInstanceAs (Decidable (∀ _ ∈ _, _))
  | .onServiceDisconnected .. => inferInstanceAs (Decidable (∀ _ ∈ _, _))
  | .onInstancesLoadedFromDB .. => isTrue trivial

/-- A candid posted block tells what it changes. -/
theorem Candid.told_runBlock {q : List Block} {b : Block} (hq : s.queue = b :: q)
    (hg : s.Candid .runPosted) (hnodup : (s.instances.map s.idOf).Nodup) :
    Told s ({ s with queue := q }.runBlock b) := by
  have hpop : ∀ o, Announces o none s { s with queue := q } := fun o =>
    .silent o ⟨rfl, fun _ => rfl, rfl, rfl⟩ (fun _ => rfl) rfl
  have hnone : ∀ {t : Registry}, Announces 0 none s t → Told s t := fun h =>
    h.told hnodup fun _ h => (nomatch h)
  cases b with
  | bind o instId => exact hnone ((hpop 0).trans (.runBind _ 0 o instId))
  | unbind o =>
    obtain ⟨a, honly, hann⟩ := Announces.runUnbind { s with queue := q } o
    have hann := (hpop o).trans hann
    rw [Option.or_none] at hann
    refine hann.told hnodup fun st hst => ?_
    have hrel : s.Releasable o := by
      by_contra hno
      rw [honly.2 hno] at hst
      cases hst
    rw [honly.1 st hst]
    exact hg (.unbind o) (by rw [hq]; rfl) hrel
  | stopServers => exact hnone ((hpop 0).trans (.stopServers _ 0))
  | bindServers => exact hnone ((hpop 0).trans (.runBindServers _ 0))

/-- Every step but a reload tells what it does. -/
theorem Candid.told {act : Action} (hg : s.Candid act) (hact : Store.NoReload act)
    (hnodup : (s.instances.map s.idOf).Nodup) (h : s.step act = some t) : Told s t := by
  unfold Registry.step at h
  split at h
  · cases h
  · cases act with
    | start o dirs =>
      simp only [Option.ite_none_right_eq_some, Option.some.injEq] at h
      obtain ⟨-, rfl⟩ := h
      refine (Announces.start s o dirs).told hnodup fun st hst => ?_
      split at hst
      · next hidle =>
        cases hst
        exact hg hidle
      · cases hst
    | stop o =>
      simp only [Option.ite_none_right_eq_some, Option.some.injEq] at h
      obtain ⟨-, rfl⟩ := h
      refine (Announces.stop s o).told hnodup fun st hst => ?_
      split at hst
      · next hup =>
        cases hst
        exact hg hup
      · cases hst
    | onInstancesLoadedFromDB rows db hash dirs => exact hact.elim
    | runPosted =>
      simp only at h
      cases hq : s.queue with
      | nil =>
        rw [hq] at h
        cases h
      | cons b q =>
        rw [hq, Option.some.injEq] at h
        exact h ▸ hg.told_runBlock hq hnodup
    | onServiceConnected c =>
      obtain ⟨b, hb, rfl⟩ := Option.map_eq_some_iff.mp h
      refine (Announces.onServiceConnected s b).told hnodup fun st hst => ?_
      split at hst
      · next hother =>
        cases hst
        exact hg b hb hother
      · cases hst
    | onServiceDisconnected c =>
      obtain ⟨b, hb, rfl⟩ := Option.map_eq_some_iff.mp h
      refine (Announces.onServiceDisconnected s b).told hnodup fun st hst => ?_
      split at hst
      · cases hst
      · next hother =>
        cases hst
        exact hg b hb (Bool.eq_false_of_not_eq_true hother)

/-! ## A reload -/

/-- So does the autostart loop, whose objects are the current ones. -/
theorem told_autostartAll (dirs : String → Dirs) (rest : List Oid)
    (hrest : ∀ x ∈ rest, x ∈ s.instances) (hnodup : (s.instances.map s.idOf).Nodup) :
    Told s (autostartAll dirs s rest).1 := by
  induction rest generalizing s with
  | nil => exact .refl s
  | cons inst rest ih =>
    have hann := Announces.start s inst (dirs (s.idOf inst))
    have htold : Told s (s.start inst (dirs (s.idOf inst))).1 :=
      hann.told hnodup fun _ _ => .inl (hrest inst List.mem_cons_self)
    have htail : ∀ x ∈ rest, x ∈ s.instances := fun x hx => hrest x (List.mem_cons_of_mem _ hx)
    unfold autostartAll
    split
    · generalize hres : s.start inst (dirs (s.idOf inst)) = res at hann htold
      obtain ⟨r, outcome⟩ := res
      cases outcome with
      | threw => exact htold
      | returned =>
        refine htold.trans (ih (fun x hx => ?_) ?_)
        · rw [hann.same.instances]
          exact htail x hx
        · rw [hann.same.instances, List.map_congr_left fun x _ => hann.same.idOf x]
          exact hnodup
    · exact ih htail hnodup

/-- The adoption loop fires nothing. -/
theorem fired_adoptRows (db : Option (List Row)) (loaded : List Oid) (hi : Indexed s) :
    (loaded.foldl (adoptRow db) s).fired = s.fired := by
  induction loaded generalizing s with
  | nil => rfl
  | cons inst loaded ih =>
    have hlooked := getInstance_looked hi (s.idOf inst) db
    have hfirst : (adoptRow db s inst).fired = s.fired := by
      unfold adoptRow
      generalize s.getInstance (s.idOf inst) db = res at hlooked
      obtain ⟨r, was⟩ := res
      have hfired := congrArg Registry.fired hlooked.eq
      cases was with
      | none => exact hfired
      | some was =>
        simp only [adopt]
        split <;> exact hfired
    exact (ih (keepsRows_adoptRow hi db inst).2).trans hfirst

/-- The drop loop fires more than there was. -/
theorem fired_dropMissing (ids : List String) (keys : List Oid) (s : Registry) :
    ∃ F, (keys.foldl (dropMissing ids) s).fired = s.fired ++ F := by
  induction keys generalizing s with
  | nil => exact ⟨[], (List.append_nil _).symm⟩
  | cons was keys ih =>
    have hfirst : ∃ F, (dropMissing ids s was).fired = s.fired ++ F := by
      unfold dropMissing
      split
      · exact ⟨[], (List.append_nil _).symm⟩
      · obtain ⟨F, hF, -⟩ := (Announces.stop { s with slots := s.slots.erase was } was).events
        exact ⟨F, hF⟩
    obtain ⟨F, hF⟩ := hfirst
    obtain ⟨G, hG⟩ := ih (dropMissing ids s was)
    exact ⟨F ++ G, by rw [List.foldl_cons, hG, hF, List.append_assoc]⟩

/-- What a reload leaves: its own objects, the rows of those there were, and everything told.
SOURCE: KlipperInstance.kt:249-291 -/
structure Reloaded (s : Registry) (loaded : List Oid) (t : Registry) : Prop where
  instances : t.instances = loaded
  keeps : KeepsRows s t
  told : Told s t

/-- **A reload** leaves its own objects, and tells everything. -/
theorem reloaded {rows : List Row} {loaded : List Oid} (hload : Loaded s rows t loaded)
    (hi : Indexed t) (hnodup : (rows.map Row.id).Nodup) (db : Option (List Row))
    (hash : Oid → Nat) (dirs : String → Dirs) :
    Reloaded s loaded (t.onInstancesLoadedFromDB loaded db hash dirs).1 := by
  have hloaded : KeepsRows s t :=
    ⟨hload.created, fun x hx => congrArg KlipperInstance.toRow (hload.heap x hx)⟩
  have hadopt := keepsRows_adoptRows db loaded hi
  have hfired := fired_adoptRows db loaded hi
  unfold Registry.onInstancesLoadedFromDB
  simp only
  set s₁ := loaded.foldl (adoptRow db) t
  set keys := s₁.slots.keys.insertionSort fun a b => hash a ≤ hash b
  have hdrop := sameCaches_dropMissing (loaded.map s₁.idOf) keys s₁
  obtain ⟨F, hF⟩ := fired_dropMissing (loaded.map s₁.idOf) keys s₁
  set s₂ := keys.foldl (dropMissing (loaded.map s₁.idOf)) s₁
  have hkeeps : KeepsRows t (s₂.refresh loaded) :=
    (hadopt.trans hdrop.keepsRows).trans ⟨le_rfl, fun _ _ => rfl⟩
  have hrefreshed : Told s (s₂.refresh loaded) := by
    refine .of_refreshed (F := F) ?_
    have hbase : t.fired = s.fired := by rw [hload.eq]
    calc (s₂.refresh loaded).fired = s₂.fired ++ [.instancesRefreshed] := rfl
      _ = s.fired ++ F ++ [.instancesRefreshed] := by rw [hF, hfired, hbase]
  have hids : (loaded.map (s₂.refresh loaded).idOf).Nodup := by
    have hid : ∀ x ∈ loaded, (s₂.refresh loaded).idOf x = t.idOf x := fun x hx =>
      congrArg Row.id (hkeeps.row x (hload.range x hx).2)
    rw [List.map_congr_left hid, hload.ids]
    exact hnodup
  have hstarts := sameCaches_autostartAll dirs loaded (s₂.refresh loaded)
  exact ⟨hstarts.instances, (hloaded.trans hkeeps).trans hstarts.keepsRows,
    hrefreshed.trans (told_autostartAll dirs loaded (fun x hx => hx) hids)⟩

end Registry

/-! ## The store -/

namespace BeamDB

/-- The loop skips repeated ids. -/
theorem nodup_readRows (t : Table) (rows : List SqlTable.Row) (seenIds : List String) :
    ((readRows t rows seenIds).map Row.id).Nodup ∧
      ∀ row ∈ readRows t rows seenIds, row.id ∉ seenIds := by
  induction rows generalizing seenIds with
  | nil => exact ⟨List.nodup_nil, fun _ h => (List.not_mem_nil h).elim⟩
  | cons row rows ih =>
    unfold readRows
    simp only
    cases hid : SqlTable.getAsString (t.contentValues row) COLUMN_ID with
    | none => exact ih seenIds
    | some id =>
      obtain ⟨hnodup, hnew⟩ := ih (id :: seenIds)
      have hskip : ∀ r ∈ readRows t rows (id :: seenIds), r.id ∉ seenIds := fun r hr hmem =>
        hnew r hr (List.mem_cons_of_mem id hmem)
      simp only
      split
      · exact ih seenIds
      · next hseen =>
        split
        · refine ⟨?_, fun r hr => ?_⟩
          · rw [List.map_cons, List.nodup_cons]
            refine ⟨fun hmem => ?_, hnodup⟩
            obtain ⟨r, hr, hrid⟩ := List.mem_map.mp hmem
            exact hnew r hr (hrid ▸ List.mem_cons_self)
          · rcases List.mem_cons.mp hr with rfl | hr
            · exact hseen
            · exact hskip r hr
        · exact ⟨hnodup, hskip⟩

/-- The rows of a table have distinct ids. -/
theorem nodup_getInstances (t : Table) : ((getInstances t).map Row.id).Nodup :=
  (nodup_readRows t t.rows []).1

end BeamDB

namespace Store

variable {s t : Store}

/-- What the caches of a store must be. -/
def Kept (s : Store) : Prop := s.registry.Cached (BeamDB.getInstances s.table)

/-- The current objects have distinct ids. -/
theorem Kept.nodup (h : Kept s) : (s.registry.instances.map s.registry.idOf).Nodup := by
  rcases h.rows with hnil | hrows
  · rw [hnil]
    exact List.nodup_nil
  · have hnodup := BeamDB.nodup_getInstances s.table
    rw [← hrows, List.map_map] at hnodup
    exact hnodup

/-- The list is not waiting for the first read of a table that has rows. -/
def Filled (s : Store) : Prop :=
  s.registry.instances = [] → BeamDB.getInstances s.table = []

/-- What every call leaves, but a new process. -/
structure Advanced (s t : Store) : Prop where
  kept : Kept t
  filled : Filled s → Filled t
  keeps : s.registry.KeepsRows t.registry
  /-- everything is told, or the first read of the table has filled the list -/
  told : s.registry.Told t.registry ∨
    (s.registry.instances = [] ∧ t.registry.fired = s.registry.fired ∧ ¬Filled s)

/-- A reload after the table has changed. -/
theorem Advanced.loaded {table : Table} {loaded : List Oid} {r : Registry} (h : Kept s)
    (hload : s.registry.Loaded (BeamDB.getInstances table) r loaded) (hash : Oid → Nat)
    (dirs : String → Dirs) : Advanced s ⟨table, (r.onInstancesLoadedFromDB loaded
      (some (BeamDB.getInstances table)) hash dirs).1⟩ := by
  have hindexed : r.Indexed := (hload.cached h).indexed
  have hreloaded := Registry.reloaded hload hindexed (BeamDB.nodup_getInstances table)
    (some (BeamDB.getInstances table)) hash dirs
  refine ⟨Registry.reload_cached hload hindexed _ hash dirs, fun _ hnil => ?_, hreloaded.keeps,
    .inl hreloaded.told⟩
  have hnone : loaded = [] := hreloaded.instances.symm.trans hnil
  rw [← hload.rowAt, hnone]
  rfl

/-- A reload advances the store. -/
theorem Advanced.reload {table : Table} (h : Kept s) (hash : Oid → Nat) (dirs : String → Dirs) :
    Advanced s (Store.reload { s with table } hash dirs) := by
  have hloaded := Advanced.loaded h
    (Registry.loadRows_spec s.registry (BeamDB.getInstances table)) hash dirs
  unfold Store.reload
  simp only
  split
  · next r heq =>
    rw [heq] at hloaded
    have hfire : Registry.SameCaches r (r.fire .instancesRefreshed) :=
      ⟨rfl, fun _ => rfl, rfl, rfl⟩
    have hlast : r.Told (r.fire .instancesRefreshed) :=
      .of_refreshed (F := []) (congrArg (· ++ _) (List.append_nil _).symm)
    refine ⟨hloaded.kept.same hfire, hloaded.filled, hloaded.keeps.trans hfire.keepsRows, ?_⟩
    rcases hloaded.told with htold | ⟨hnil, hfired, hno⟩
    · exact .inl (htold.trans hlast)
    · exact .inl (.of_refreshed (F := []) (by
        rw [List.append_nil]
        exact congrArg (· ++ _) hfired))
  · next r heq =>
    rw [heq] at hloaded
    exact hloaded

/-- A getter: it may only read the table. -/
theorem Advanced.read (htable : t.table = s.table) (hkept : Kept t)
    (hfired : t.registry.fired = s.registry.fired)
    (hcreated : s.registry.created ≤ t.registry.created)
    (hheap : ∀ x < s.registry.created, t.registry.heap x = s.registry.heap x)
    (hinst : t.registry.instances = s.registry.instances ∨ s.registry.instances = [])
    (h : Kept s) : Advanced s t where
  kept := hkept
  filled hfilled hnil := by
    rw [htable]
    rcases hinst with hsame | hempty
    · exact hfilled (hsame.symm.trans hnil)
    · exact hfilled hempty
  keeps := ⟨hcreated, fun x hx => congrArg KlipperInstance.toRow (hheap x hx)⟩
  told := by
    by_cases hfirst : s.registry.instances = [] ∧ ¬Filled s
    · exact .inr ⟨hfirst.1, hfired, hfirst.2⟩
    have hsame : t.registry.instances = s.registry.instances := by
      rcases hinst with hsame | hempty
      · exact hsame
      · -- there is nothing to read, so nothing is listed then
        have hrows : BeamDB.getInstances t.table = [] := by
          rw [htable]
          exact not_not.mp (fun hno => hfirst ⟨hempty, fun hfilled => hno (hfilled hempty)⟩)
        rcases hkept.rows with hnil | hlist
        · rw [hnil, hempty]
        · rw [hrows] at hlist
          rw [List.map_eq_nil_iff.mp hlist, hempty]
    have hcurrent : ∀ j, t.registry.current j = s.registry.current j := by
      intro j
      have hid : ∀ x ∈ s.registry.instances, t.registry.idOf x = s.registry.idOf x :=
        fun x hx => congrArg (fun i => i.id) (hheap x (h.exist x hx))
      rw [Registry.current, hsame, Registry.findById_congr hid, Registry.current]
      cases hfind : s.registry.findById s.registry.instances j with
      | none => rfl
      | some w =>
        have hw := h.exist w (Registry.findById_some hfind).1
        exact congrArg some (congrArg (fun i => i.state) (hheap w hw))
    exact .inl ⟨[], by rw [hfired, List.append_nil], .inr hsame,
      fun j => ⟨fun _ => hcurrent j, fun _ hst => (nomatch hst)⟩⟩

/-- Looking an object up keeps the list, unless it is empty. -/
theorem getInstance_instances (r : Registry) (i : String) (db : Option (List Row)) :
    (r.getInstance i db).1.instances = r.instances ∨ r.instances = [] := by
  by_cases hnil : r.instances = []
  · exact .inr hnil
  · left
    have hget : (r.instanceMapGet i).1.instances = r.instances := by
      rw [Registry.instanceMapGet_eq]
    unfold Registry.getInstance
    generalize r.instanceMapGet i = res at hget
    obtain ⟨u, o⟩ := res
    cases o with
    | some o => exact hget
    | none =>
      cases db with
      | none => exact hget
      | some rows =>
        have hload := Registry.loadRows_spec u rows
        have hinst : (u.loadRows rows).1.instances = r.instances :=
          (congrArg Registry.instances hload.eq).trans hget
        simp only
        cases (u.loadRows rows).1.findById (u.loadRows rows).2 i with
        | none => exact hinst
        | some o =>
          simp only
          rw [hinst, if_neg (by rw [List.isEmpty_iff]; exact hnil)]

/-- `getInstance` advances the store. -/
theorem Advanced.getInstance (h : Kept s) (id : String) : Advanced s (s.getInstance id).1 := by
  have hlooked := Registry.getInstance_looked h.indexed id (some (BeamDB.getInstances s.table))
  have hfired := congrArg Registry.fired hlooked.eq
  exact .read rfl (Registry.Cached.getInstance h (BeamDB.nodup_getInstances s.table) id).cached
    hfired hlooked.created hlooked.heap
    (getInstance_instances s.registry id (some (BeamDB.getInstances s.table))) h

/-- What `getInstances` leaves is read off the list it answers. -/
theorem getInstances_registry (s : Store) : s.getInstances.1.registry.fired = s.registry.fired ∧
    s.registry.created ≤ s.getInstances.1.registry.created ∧
    (∀ x < s.registry.created, s.getInstances.1.registry.heap x = s.registry.heap x) ∧
    (s.getInstances.1.registry.instances = s.registry.instances ∨ s.registry.instances = []) := by
  have hload := Registry.loadRows_spec s.registry (BeamDB.getInstances s.table)
  have hfired := congrArg Registry.fired hload.eq
  unfold Store.getInstances Registry.getInstances
  cases hinst : s.registry.instances with
  | cons o os =>
    simp only [List.isEmpty_cons, Bool.false_eq_true, if_false]
    exact ⟨trivial, le_rfl, fun _ _ => trivial, .inl hinst⟩
  | nil =>
    simp only [List.isEmpty_nil, if_true]
    split <;> exact ⟨hfired, hload.created, hload.heap, .inr trivial⟩

/-- `getInstances` does too. -/
theorem Advanced.getInstances (h : Kept s) : Advanced s s.getInstances.1 := by
  obtain ⟨hfired, hcreated, hheap, hinst⟩ := getInstances_registry s
  exact .read rfl (Registry.Cached.getInstances h).1 hfired hcreated hheap hinst h

/-- Every call of a run keeps the caches, and what it does is told. -/
theorem Advanced.step (h : Kept s) {c : Call} (hc : c ≠ .restart)
    (hg : ∀ a, c = .registry a → s.registry.Candid a) (hstep : s.step c = some t) :
    Advanced s t := by
  cases c with
  | insert inst hash dirs =>
    simp only [Store.step, Option.ite_none_left_eq_some, Option.some.injEq] at hstep
    exact hstep.2 ▸ .reload h hash dirs
  | update inst hash dirs =>
    simp only [Store.step, Option.ite_none_left_eq_some, Option.some.injEq] at hstep
    exact hstep.2 ▸ .reload h hash dirs
  | delete id hash dirs =>
    simp only [Store.step, Option.ite_none_left_eq_some, Option.some.injEq] at hstep
    exact hstep.2 ▸ .reload h hash dirs
  | getInstance id =>
    simp only [Store.step, Option.ite_none_left_eq_some, Option.some.injEq] at hstep
    exact hstep.2 ▸ .getInstance h id
  | getInstances =>
    simp only [Store.step, Option.ite_none_left_eq_some, Option.some.injEq] at hstep
    exact hstep.2 ▸ .getInstances h
  | registry a =>
    simp only [Store.step, Option.ite_none_right_eq_some] at hstep
    obtain ⟨r, hr, rfl⟩ := Option.map_eq_some_iff.mp hstep.2
    have hsame := Registry.SameCaches.step hstep.1 hr
    exact ⟨h.same hsame, fun hfilled hnil => hfilled (hsame.instances.symm.trans hnil),
      hsame.keepsRows, .inl ((hg a rfl).told hstep.1 h.nodup hr)⟩
  | restart => exact (hc rfl).elim

end Store

/-! ## The process -/

namespace AppState

variable {s t : AppState}

/-- The events that are still to be handed over. -/
def pending (s : AppState) : List Event := s.store.registry.fired.drop s.delivered

/-- A refresh now shows the flow of the instances the list it has let through last, or one
with other ids. -/
def Distinct (s : AppState) : Prop :=
  ∀ l ∈ s.instances.previous, l = s.store.getInstances.2 ∨
    areEquivalent s.store.getInstances.1.registry l s.store.getInstances.2 = false

instance (s : AppState) : Decidable s.Distinct :=
  inferInstanceAs (Decidable (∀ _ ∈ _, _))

/-- What holds of a process all along. -/
structure Converging (s : AppState) : Prop where
  kept : s.store.Kept
  delivered : s.delivered ≤ s.store.registry.fired.length
  filled : s.started → s.store.Filled
  listed : s.started → .instancesRefreshed ∈ s.pending ∨
    s.instances.source = s.store.registry.instances
  silent : s.started → ∀ j, Registry.lastWord j s.pending = none →
    s.instanceStates.source.lookup j = s.store.registry.current j
  said : ∀ j st, Registry.lastWord j s.pending = some (some st) →
    s.store.registry.current j = some st
  source : ∀ x ∈ s.instances.source, x < s.store.registry.created
  previous : ∀ l ∈ s.instances.previous, s.instances.value = l ∧
    (∀ x ∈ l, x < s.store.registry.created) ∧ (l = s.instances.source ∨
      areEquivalent s.store.registry l s.instances.source = false)
  previousStates : ∀ m ∈ s.instanceStates.previous, s.instanceStates.value = m

/-- The flow of the instances compares ids only. -/
theorem areEquivalent_congr {r u : Registry} {a b : List Oid}
    (ha : ∀ x ∈ a, u.idOf x = r.idOf x) (hb : ∀ x ∈ b, u.idOf x = r.idOf x) :
    areEquivalent u a b = areEquivalent r a b := by
  unfold areEquivalent
  congr 1
  rw [Bool.eq_iff_iff, List.all_eq_true, List.all_eq_true]
  refine forall₂_congr fun p hp => ?_
  have hmem := List.of_mem_zip hp
  simp only [ha p.1 hmem.1, hb p.2 hmem.2]

/-- The pending events after more have been fired. -/
theorem pending_append {store : Store} {F : List Event} (h : s.delivered ≤
    s.store.registry.fired.length) (hF : store.registry.fired = s.store.registry.fired ++ F) :
    { s with store }.pending = s.pending ++ F := by
  unfold pending
  rw [hF]
  exact List.drop_append_of_le_length h

/-- **What the store does** is shown in the end. -/
theorem Converging.advance (h : Converging s) {store : Store}
    (ha : s.store.Advanced store) : Converging { s with store } := by
  have hids : ∀ x < s.store.registry.created, store.registry.idOf x = s.store.registry.idOf x :=
    fun x hx => congrArg Row.id (ha.keeps.row x hx)
  have hprevious : ∀ l ∈ s.instances.previous, s.instances.value = l ∧
      (∀ x ∈ l, x < store.registry.created) ∧ (l = s.instances.source ∨
        areEquivalent store.registry l s.instances.source = false) := by
    intro l hl
    obtain ⟨hvalue, hexist, hsame⟩ := h.previous l hl
    refine ⟨hvalue, fun x hx => (hexist x hx).trans_le ha.keeps.created, ?_⟩
    rw [areEquivalent_congr (fun x hx => hids x (hexist x hx))
      fun x hx => hids x (h.source x hx)]
    exact hsame
  have hsource : ∀ x ∈ s.instances.source, x < store.registry.created :=
    fun x hx => (h.source x hx).trans_le ha.keeps.created
  rcases ha.told with ⟨F, hF, hlist, hword⟩ | ⟨hnil, hfired, hno⟩
  · have hpending := pending_append h.delivered hF
    have hlast : ∀ j, Registry.lastWord j { s with store }.pending =
        (Registry.lastWord j F).or (Registry.lastWord j s.pending) := by
      intro j
      rw [hpending, Registry.lastWord_append]
    refine ⟨ha.kept, ?_, fun hs => ha.filled (h.filled hs), fun hs => ?_, fun hs j hj => ?_,
      fun j st hj => ?_, hsource, hprevious, h.previousStates⟩
    · show s.delivered ≤ store.registry.fired.length
      rw [hF, List.length_append]
      exact h.delivered.trans (Nat.le_add_right _ _)
    · rw [hpending]
      rcases hlist with hmem | hsame
      · exact .inl (List.mem_append_right _ hmem)
      · exact (h.listed hs).imp (List.mem_append_left F) fun heq => heq.trans hsame.symm
    · rw [hlast, Option.or_eq_none_iff] at hj
      exact (h.silent hs j hj.2).trans ((hword j).1 hj.1).symm
    · rw [hlast, Option.or_eq_some_iff] at hj
      rcases hj with hj | ⟨hnone, hj⟩
      · exact (hword j).2 st hj
      · exact ((hword j).1 hnone).trans (h.said j st hj)
  · -- before the start: nothing is listed, so nothing has been said of any id
    have hpending : { s with store }.pending = s.pending := by
      unfold pending
      rw [hfired]
    have hstopped : ¬s.started = true := fun hs => hno (h.filled hs)
    refine ⟨ha.kept, ?_, fun hs => (hstopped hs).elim, fun hs => (hstopped hs).elim,
      fun hs => (hstopped hs).elim, fun j st hj => ?_, hsource, hprevious, h.previousStates⟩
    · show s.delivered ≤ store.registry.fired.length
      rw [hfired]
      exact h.delivered
    · rw [hpending] at hj
      have hsaid := h.said j st hj
      rw [Registry.current, hnil] at hsaid
      cases hsaid

/-- Without the listener less is asked for. -/
theorem Converging.stop (h : Converging s) : Converging s.stop :=
  ⟨h.kept, h.delivered, fun hs => (nomatch hs), fun hs => (nomatch hs), fun hs => (nomatch hs),
    h.said, h.source, h.previous, h.previousStates⟩

/-- `associate` gives each id the state of its object. -/
theorem lookup_associate (r : Registry) {list : List Oid} (hnodup : (list.map r.idOf).Nodup)
    (j : String) : (associate r list).lookup j = (r.findById list j).map r.stateOf := by
  have hfold : ∀ (list : List Oid) (m : Finmap fun _ : String => State),
      (list.map r.idOf).Nodup → (∀ o ∈ list, r.idOf o ∉ m) →
      (list.foldl (fun m it => m.insert (r.idOf it) (r.stateOf it)) m).lookup j =
        ((r.findById list j).map r.stateOf).or (m.lookup j) := by
    intro list
    induction list with
    | nil => exact fun m _ _ => rfl
    | cons it list ih =>
      intro m hnodup hnew
      rw [List.map_cons, List.nodup_cons] at hnodup
      have hrest : ∀ o ∈ list, r.idOf o ∉ m.insert (r.idOf it) (r.stateOf it) := by
        intro o ho hmem
        rcases Finmap.mem_insert.mp hmem with hid | hmem
        · exact hnodup.1 (hid ▸ List.mem_map_of_mem ho)
        · exact hnew o (List.mem_cons_of_mem it ho) hmem
      have hcons : r.findById (it :: list) j =
          if r.idOf it = j then some it else r.findById list j := by
        unfold Registry.findById
        rw [List.find?_cons]
        split <;> simp_all
      rw [List.foldl_cons, ih _ hnodup.2 hrest, hcons]
      split
      · next hj =>
        subst hj
        have hnone : r.findById list (r.idOf it) = none := by
          refine List.find?_eq_none.mpr fun o ho hid => hnodup.1 ?_
          exact of_decide_eq_true hid ▸ List.mem_map_of_mem ho
        rw [hnone, Finmap.lookup_insert]
        rfl
      · next hj => rw [Finmap.lookup_insert_of_ne m (Ne.symm hj)]
  have h := hfold list ∅ hnodup fun o _ hmem => Finmap.notMem_empty hmem
  rw [Finmap.lookup_empty, Option.or_none] at h
  exact h

/-- `refreshInstances` shows what the registry has now. -/
theorem Converging.refresh (h : Converging s.stop) (hd : s.Distinct) :
    Converging { s with started := true }.refreshInstances := by
  have hget := Registry.Cached.getInstances h.kept
  have hlist : s.store.getInstances.2 = s.store.getInstances.1.registry.instances := hget.2.1
  have hrows : s.store.getInstances.2.map s.store.getInstances.1.registry.rowAt =
      BeamDB.getInstances s.store.table := hget.2.2
  have hadvance := h.advance (Store.Advanced.getInstances h.kept)
  refine ⟨hadvance.kept, hadvance.delivered, fun _ hnil => ?_, fun _ => .inr hlist,
    fun _ j _ => ?_, hadvance.said, fun x hx => ?_, fun l hl => ?_, hadvance.previousStates⟩
  · have hempty : s.store.getInstances.2 = [] := hlist.trans hnil
    rw [hempty] at hrows
    exact hrows.symm
  · have hnodup : (s.store.getInstances.1.registry.instances.map
        s.store.getInstances.1.registry.idOf).Nodup := hadvance.kept.nodup
    rw [← hlist] at hnodup
    refine (lookup_associate _ hnodup j).trans ?_
    rw [hlist]
    rfl
  · have hmem : x ∈ s.store.getInstances.1.registry.instances := hlist ▸ hx
    exact hadvance.kept.exist x hmem
  · obtain ⟨hvalue, hexist, -⟩ := hadvance.previous l hl
    exact ⟨hvalue, hexist, hd l hl⟩

/-- The steps the screens can follow: what is announced is the state of the current object,
and no refresh brings other objects with the ids that are shown. -/
def Careful (s : AppState) : Action → Prop
  | .store (.registry a) => s.store.registry.Candid a
  | .ui .deliver => s.started →
    s.store.registry.fired[s.delivered]? = some .instancesRefreshed → s.Distinct
  | .ui .start => ¬s.started → s.Distinct
  | _ => True

instance (s : AppState) : DecidablePred s.Careful
  | .store c =>
    match c with
    | .registry a => inferInstanceAs (Decidable (s.store.registry.Candid a))
    | .insert .. | .update .. | .delete .. | .getInstance _ | .getInstances | .restart =>
      isTrue trivial
  | .load .. => isTrue trivial
  | .ui a =>
    match a with
    | .deliver => inferInstanceAs (Decidable (_ → _ → _))
    | .start => inferInstanceAs (Decidable (_ → _))
    | .stop | .subscribe _ | .unsubscribe _ | .collect _ => isTrue trivial

/-- The event that is handed over is the first of those pending. -/
theorem pending_cons {e : Event} (h : s.store.registry.fired[s.delivered]? = some e) :
    s.pending = e :: { s with delivered := s.delivered + 1 }.pending := by
  obtain ⟨hlt, rfl⟩ := List.getElem?_eq_some_iff.mp h
  exact List.drop_eq_getElem_cons hlt

/-- Handing over an event. -/
theorem Converging.deliver (h : Converging s) {e : Event}
    (he : s.store.registry.fired[s.delivered]? = some e)
    (hd : s.started → e = .instancesRefreshed → s.Distinct) :
    Converging ({ s with delivered := s.delivered + 1 }.onEvent e) := by
  have hcons := pending_cons he
  set u : AppState := { s with delivered := s.delivered + 1 }
  have hlast : ∀ j, Registry.lastWord j s.pending =
      (Registry.lastWord j u.pending).or (Registry.word j e) := fun j => by rw [hcons]; rfl
  have hlt : s.delivered + 1 ≤ s.store.registry.fired.length :=
    (List.getElem?_eq_some_iff.mp he).1
  have hsaid : ∀ j st, Registry.lastWord j u.pending = some (some st) →
      u.store.registry.current j = some st := fun j st hj => by
    refine h.said j st ?_
    rw [hlast, hj]
    rfl
  have hstopped : Converging u.stop :=
    ⟨h.kept, hlt, fun hs => (nomatch hs), fun hs => (nomatch hs), fun hs => (nomatch hs), hsaid,
      h.source, h.previous, h.previousStates⟩
  unfold onEvent
  cases hs : u.started with
  | false =>
    refine ⟨h.kept, hlt, fun hs' => ?_, fun hs' => ?_, fun hs' => ?_, hsaid, h.source,
      h.previous, h.previousStates⟩ <;> exact absurd (hs.symm.trans hs') Bool.false_ne_true
  | true =>
    have hlisted : e ≠ .instancesRefreshed → .instancesRefreshed ∈ u.pending ∨
        u.instances.source = u.store.registry.instances := by
      intro hne
      refine (h.listed hs).imp (fun hmem => ?_) id
      rw [hcons] at hmem
      exact (List.mem_cons.mp hmem).resolve_left (Ne.symm hne)
    cases e with
    | instancesRefreshed =>
      have hrefresh := hstopped.refresh (s := u) (hd hs rfl)
      rw [show ({ u with started := true } : AppState) = u by rw [← hs]] at hrefresh
      exact hrefresh
    | instanceStateChanged id state =>
      refine ⟨h.kept, hlt, fun _ => h.filled hs, fun _ => hlisted nofun, fun _ j hj => ?_, hsaid,
        h.source, h.previous, h.previousStates⟩
      have hlast := hlast j
      rw [show Registry.lastWord j u.pending = none from hj, Option.none_or,
        Registry.word] at hlast
      show (u.instanceStates.source.insert id state).lookup j = _
      by_cases hid : id = j
      · subst hid
        rw [if_pos rfl] at hlast
        rw [Finmap.lookup_insert]
        exact (h.said id state hlast).symm
      · rw [if_neg hid] at hlast
        rw [Finmap.lookup_insert_of_ne _ (Ne.symm hid)]
        exact h.silent hs j hlast
    | webStateChanged state =>
      refine ⟨h.kept, hlt, fun _ => h.filled hs, fun _ => hlisted nofun, fun _ j hj => ?_, hsaid,
        h.source, h.previous, h.previousStates⟩
      have hlast := hlast j
      rw [show Registry.lastWord j u.pending = none from hj] at hlast
      exact h.silent hs j hlast

/-- A subscriber comes or goes, or a flow takes its source's value. -/
theorem Converging.onFlow (h : Converging s) {flow : Shown}
    {f : ∀ {α : Type}, (α → α → Bool) → DistinctFlow α → DistinctFlow α}
    (hsource : ∀ (α : Type) (same : α → α → Bool) (d : DistinctFlow α), (f same d).source = d.source)
    (hprevious : ∀ (α : Type) (same : α → α → Bool) (d : DistinctFlow α), ∀ l ∈ (f same d).previous,
      (l = d.source ∧ (f same d).value = l) ∨ (l ∈ d.previous ∧ (f same d).value = d.value)) :
    Converging (s.onFlow f flow) := by
  cases flow with
  | instances =>
    refine ⟨h.kept, h.delivered, h.filled, ?_, h.silent, h.said, ?_, fun l hl => ?_,
      h.previousStates⟩
    · rw [AppState.onFlow, hsource]
      exact h.listed
    · rw [AppState.onFlow, hsource]
      exact h.source
    · rw [AppState.onFlow, hsource]
      rcases hprevious _ _ _ l hl with ⟨rfl, hvalue⟩ | ⟨hmem, hvalue⟩
      · exact ⟨hvalue, h.source, .inl rfl⟩
      · obtain ⟨hsame, hrest⟩ := h.previous l hmem
        exact ⟨hvalue.trans hsame, hrest⟩
  | instanceStates =>
    refine ⟨h.kept, h.delivered, h.filled, h.listed, ?_, h.said, h.source, h.previous,
      fun m hm => ?_⟩
    · rw [AppState.onFlow, hsource]
      exact h.silent
    · rcases hprevious _ _ _ m hm with ⟨-, hvalue⟩ | ⟨hmem, hvalue⟩
      · exact hvalue
      · exact hvalue.trans (h.previousStates m hmem)

/-- **A step of the screens** keeps what converges. -/
theorem Converging.stepUi (h : Converging s) {a : UiAction} (hg : s.Careful (.ui a))
    (hstep : s.stepUi a = some t) : Converging t := by
  cases a with
  | deliver =>
    obtain ⟨e, he, rfl⟩ := Option.map_eq_some_iff.mp hstep
    exact h.deliver he fun hs hrefresh => hg hs (hrefresh ▸ he)
  | start =>
    cases hstep
    unfold AppState.start
    split
    · exact h
    · next hs => exact h.stop.refresh (hg hs)
  | stop =>
    cases hstep
    exact h.stop
  | subscribe flow =>
    cases hstep
    exact h.onFlow (fun _ _ _ => rfl) fun _ _ _ l hl => .inr ⟨hl, rfl⟩
  | unsubscribe flow =>
    cases hstep
    exact h.onFlow (fun _ _ _ => rfl) fun _ _ _ l hl => (nomatch hl)
  | collect flow =>
    simp only [AppState.stepUi, Option.ite_none_right_eq_some, Option.some.injEq] at hstep
    rw [← hstep.2]
    refine h.onFlow (fun α same d => ?_) fun α same d l hl => ?_
    · simp only [DistinctFlow.collect]
      split <;> rfl
    · simp only [DistinctFlow.collect] at hl ⊢
      split at hl
      · next hdrop =>
        rw [if_pos hdrop]
        exact .inr ⟨hl, rfl⟩
      · next hdrop =>
        rw [if_neg hdrop]
        have hl : l = d.source := (Option.some.inj hl).symm
        exact .inl ⟨hl, hl.symm⟩

/-- A process that has just started converges. -/
theorem Converging.fresh (table : Table) : Converging (fresh table) where
  kept := ⟨fun _ h => (nomatch h), .inl rfl, fun _ _ h => (nomatch h)⟩
  delivered := le_rfl
  filled h := nomatch h
  listed h := nomatch h
  silent h := nomatch h
  said _ _ h := nomatch h
  source _ h := nomatch h
  previous _ h := nomatch h
  previousStates _ h := nomatch h

/-- Every careful step keeps the invariant. -/
theorem Converging.step (h : Converging s) {a : Action} (hg : s.Careful a)
    (hstep : s.step a = some t) : Converging t := by
  cases a with
  | store c =>
    by_cases hc : c = .restart
    · subst hc
      cases hstep
      exact .fresh s.store.table
    · have hmap : (s.store.step c).map (fun store => { s with store }) = some t := by
        cases c <;> first | exact hstep | exact (hc rfl).elim
      obtain ⟨store, hstore, rfl⟩ := Option.map_eq_some_iff.mp hmap
      exact h.advance (.step h.kept hc (fun a ha => by subst ha; exact hg) hstore)
  | load hash dirs =>
    obtain ⟨store, hload, rfl⟩ := Option.map_eq_some_iff.mp hstep
    obtain ⟨r, hr, rfl⟩ := Option.map_eq_some_iff.mp hload
    unfold Registry.step at hr
    simp only [Option.ite_none_left_eq_some, Option.ite_none_right_eq_some,
      Option.some.injEq] at hr
    obtain ⟨-, -, rfl⟩ := hr
    exact h.advance (.loaded h.kept
      (Registry.loadRows_spec s.store.registry (BeamDB.getInstances s.store.table)) hash dirs)
  | ui a =>
    simp only [AppState.step, Option.ite_none_left_eq_some] at hstep
    exact h.stepUi hg hstep.2

/-- Nothing is left to be done: no posted block, no event, and nothing for the flows, which
are shared, to take. -/
def Settled (s : AppState) : Prop :=
  s.store.registry.queue = [] ∧ s.store.registry.fired.length ≤ s.delivered ∧
    s.started = true ∧ s.instances.shared = true ∧
    s.instances.Drops (areEquivalent s.store.registry) ∧ s.instanceStates.shared = true ∧
    s.instanceStates.Drops fun a b => a = b

instance (s : AppState) : Decidable s.Settled := inferInstanceAs (Decidable (_ ∧ _))

/-- The screens show the current objects in their order and the states they are in. -/
structure Live (s : AppState) : Prop where
  instances : s.instances.value = s.store.getInstances.2
  states : ∀ id, s.instanceStates.value.lookup id =
    (s.store.getInstances.1.registry.findById s.store.getInstances.2 id).map
      s.store.getInstances.1.registry.stateOf
  anyRunning : s.anyRunning ↔ ∃ o ∈ s.store.getInstances.2,
    s.store.getInstances.1.registry.stateOf o = .running ∨
      s.store.getInstances.1.registry.stateOf o = .starting

/-- What converges is live when it is settled. -/
theorem Converging.live (h : Converging s) (hs : s.Settled) : Live s := by
  obtain ⟨-, hdelivered, hstarted, -, hdrops, -, hdrops'⟩ := hs
  have hpending : s.pending = [] := List.drop_eq_nil_of_le hdelivered
  have hlisted : s.instances.source = s.store.registry.instances :=
    (h.listed hstarted).resolve_left (by rw [hpending]; exact List.not_mem_nil)
  have hgetters : s.store.getInstances = (s.store, s.store.registry.instances) := by
    have hget : s.store.registry.getInstances (some (BeamDB.getInstances s.store.table)) =
        (s.store.registry, s.store.registry.instances) := by
      unfold Registry.getInstances
      split
      · next hnil =>
        rw [h.filled hstarted (List.isEmpty_iff.mp hnil)]
        rfl
      · rfl
    unfold Store.getInstances
    rw [hget]
  have hvalue : s.instances.value = s.store.registry.instances := by
    obtain ⟨l, hl, hsame⟩ := (Option.any_eq_true _ _).mp hdrops
    obtain ⟨hvalue, -, heq | hother⟩ := h.previous l hl
    · exact hvalue.trans (heq.trans hlisted)
    · exact absurd hsame (by rw [hother]; exact Bool.false_ne_true)
  have hstates : s.instanceStates.value = s.instanceStates.source := by
    obtain ⟨m, hm, hsame⟩ := (Option.any_eq_true _ _).mp hdrops'
    exact (h.previousStates m hm).trans (of_decide_eq_true hsame)
  refine ⟨?_, fun id => ?_, ?_⟩
  · rw [hgetters]
    exact hvalue
  · rw [hgetters, hstates]
    refine h.silent hstarted id ?_
    rw [hpending]
    rfl
  · rw [hgetters, AppState.anyRunning, hvalue, List.any_eq_true]
    simp only [Bool.or_eq_true, decide_eq_true_eq]

/-- **The screens converge.** In a process on any table, after steps in any order that the
screens can follow, once the posted blocks are done, the events handed over and the flows
have taken what they are to take, the screens show the current objects and their states.
SOURCE: AppState.kt:29-118, MainViewModel.kt:18-67, KlipperInstance.kt:182-291 -/
theorem ui_converges {table : Table} {acts : List Action}
    (hrun : run (restrict step Careful) (fresh table) acts = some s) (hs : s.Settled) :
    s.Live := by
  have hconverging : Converging s :=
    run_restrict_invariant (fun _ _ _ h hg hstep => Converging.step h hg hstep)
      (Converging.fresh table) hrun
  exact hconverging.live hs

/-- A printer is added, shown and started. -/
def shownActions : List Action :=
  let hash : Oid → Nat := id
  let dirs : String → Dirs := fun _ => ⟨true, true⟩
  [.load hash dirs, .ui .start, .ui (.subscribe .instances), .ui (.subscribe .instanceStates),
    .ui .deliver, .store (.insert ⟨"a", "Ender", .printer, false⟩ hash dirs), .ui .deliver,
    .ui .deliver, .ui (.collect .instances), .store (.registry (.start 0 ⟨true, true⟩)),
    .store (.registry .runPosted), .store (.registry .runPosted), .store (.registry .runPosted),
    .ui .deliver, .ui (.collect .instances), .ui (.collect .instanceStates)]

/-- The printer that was added and started is shown as it is. -/
theorem ui_converges_shown :
    ∃ s, run (restrict step Careful) (fresh BeamDB.newTable) shownActions = some s ∧
      s.Settled ∧ s.Live := by
  have hsome : (run (restrict step Careful) (fresh BeamDB.newTable) shownActions).any
      fun s => decide s.Settled := by decide +kernel
  obtain ⟨s, hrun, hs⟩ := (Option.any_eq_true _ _).mp hsome
  exact ⟨s, hrun, of_decide_eq_true hs, ui_converges hrun (of_decide_eq_true hs)⟩

/-- A printer is added and shown, and updated, which puts another object in its place. -/
def updatedActions : List Action :=
  let hash : Oid → Nat := id
  let dirs : String → Dirs := fun _ => ⟨true, true⟩
  [.load hash dirs, .ui .start, .ui (.subscribe .instances), .ui (.subscribe .instanceStates),
    .store (.insert ⟨"a", "Ender", .printer, false⟩ hash dirs), .ui .deliver, .ui .deliver,
    .ui .deliver, .ui (.collect .instances), .ui (.collect .instanceStates),
    .store (.update ⟨"a", "Ender 3", .printer, false⟩ hash dirs), .store (.registry .runPosted),
    .store (.registry .runPosted), .store (.registry .runPosted), .ui .deliver, .ui .deliver,
    .ui (.collect .instances), .ui (.collect .instanceStates)]

/-- A printer that is up is deleted: the block that stops it runs after the reload, and the
event of that block brings its id back. -/
def deletedActions : List Action :=
  let hash : Oid → Nat := id
  let dirs : String → Dirs := fun _ => ⟨true, true⟩
  [.load hash dirs, .ui .start, .ui (.subscribe .instances), .ui (.subscribe .instanceStates),
    .store (.insert ⟨"a", "Ender", .printer, false⟩ hash dirs),
    .store (.registry (.start 0 ⟨true, true⟩)), .store (.registry .runPosted),
    .store (.registry .runPosted), .store (.registry .runPosted), .store (.registry (.stop 0)),
    .store (.delete "a" hash dirs), .store (.registry .runPosted), .store (.registry .runPosted),
    .store (.registry .runPosted), .store (.registry .runPosted),
    .ui .deliver, .ui .deliver, .ui .deliver, .ui .deliver, .ui .deliver, .ui .deliver,
    .ui .deliver, .ui .deliver, .ui .deliver,
    .ui (.collect .instances), .ui (.collect .instanceStates)]

/-- Without care neither comes about: an update leaves the old object on the screen, and the
last event of a deleted printer leaves its id among the states. -/
theorem ui_not_converges :
    (¬∀ (table : Table) (acts : List Action) (s : AppState),
      run step (fresh table) acts = some s → s.Settled →
        s.instances.value = s.store.getInstances.2) ∧
    ¬∀ (table : Table) (acts : List Action) (s : AppState),
      run step (fresh table) acts = some s → s.Settled → ∀ id,
        s.instanceStates.value.lookup id =
          (s.store.getInstances.1.registry.findById s.store.getInstances.2 id).map
            s.store.getInstances.1.registry.stateOf := by
  constructor
  · intro h
    have hend : (run step (fresh BeamDB.newTable) updatedActions).any fun s =>
        decide (s.Settled ∧ s.instances.value ≠ s.store.getInstances.2) := by decide +kernel
    obtain ⟨s, hrun, hs⟩ := (Option.any_eq_true _ _).mp hend
    obtain ⟨hsettled, hne⟩ := of_decide_eq_true hs
    exact hne (h _ _ s hrun hsettled)
  · intro h
    have hend : (run step (fresh BeamDB.newTable) deletedActions).any fun s =>
        decide (s.Settled ∧ s.instanceStates.value.lookup "a" ≠
          (s.store.getInstances.1.registry.findById s.store.getInstances.2 "a").map
            s.store.getInstances.1.registry.stateOf) := by decide +kernel
    obtain ⟨s, hrun, hs⟩ := (Option.any_eq_true _ _).mp hend
    obtain ⟨hsettled, hne⟩ := of_decide_eq_true hs
    exact hne (h _ _ s hrun hsettled "a")

end AppState

end Cream.Model
