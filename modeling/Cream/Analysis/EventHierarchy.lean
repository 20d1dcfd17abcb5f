import Cream.Model.EventBusProcessor
import Mathlib.Data.List.Lattice
import Mathlib.Data.List.Nodup
import Mathlib.Data.List.Pairwise

/-!
# Which handlers an event reaches

`EventBus.canFire` looks up whether the event type of the handler can fire its parents, not
whether the event can, and each class has its own block, so that a handler that overrides a
handler is called for both. `dispatches_iff` says for which programs neither makes a difference.
-/

set_option autoImplicit false

namespace Cream.Model.EventBusProcessor

open Cream.Library

variable {L E : Type}

/-- The event class is annotated with `canFireParent`. -/
def CanFireParent (p : Program L E) (event : E) : Prop := (event, true) ∈ p.events

/-- A class has a handler of this name for an event type. -/
def Handles (clz : ListenerClass L E) (name : Text) (event : E) : Prop :=
  ∃ m ∈ clz.methods, m.eventHandler ≠ none ∧ cantProcessReason clz m = none ∧
    m.name = name ∧ m.params = [event]

variable {p : Program L E} {clz : ListenerClass L E} {name : Text} {event type : E} {obj : L}

/-! ## What is generated -/

/-- A handler is generated for an annotated method that can be processed. -/
theorem generate_eq_some_iff {m : Method E} {h : Handler E} :
    generate clz m = some h ↔ m.eventHandler = some h.runOnMainThread ∧
      cantProcessReason clz m = none ∧ m.name = h.name ∧ m.params = [h.event] := by
  unfold generate
  cases hhandler : m.eventHandler with
  | none => simp
  | some runOnMainThread =>
    rw [Option.bind_some]
    by_cases hreason : cantProcessReason clz m = none
    · rw [if_pos hreason]
      -- what can be processed has one parameter
      obtain ⟨event, hparams⟩ : ∃ event, m.params = [event] := by
        unfold cantProcessReason at hreason
        split at hreason
        · cases hreason
        · split at hreason
          · cases hreason
          · split at hreason
            · cases hreason
            · next event hparams => exact ⟨event, hparams⟩
            · cases hreason
      rw [hparams, List.head?_cons, Option.map_some, Option.some.injEq]
      constructor
      · rintro rfl
        exact ⟨rfl, hreason, rfl, rfl⟩
      · rintro ⟨hrun, -, hname, hevent⟩
        cases h
        cases hrun
        cases hname
        cases hevent
        rfl
    · simp [hreason]

/-- The block of a class calls its handlers. -/
theorem mem_block_iff :
    (∃ h ∈ clz.methods.filterMap (generate clz), (h.name, h.event) = (name, type)) ↔
      Handles clz name type := by
  constructor
  · rintro ⟨h, hmem, heq⟩
    obtain ⟨m, hm, hgenerate⟩ := List.mem_filterMap.mp hmem
    obtain ⟨hhandler, hreason, hname, hparams⟩ := generate_eq_some_iff.mp hgenerate
    cases heq
    exact ⟨m, hm, by rw [hhandler]; exact Option.some_ne_none _, hreason, hname, hparams⟩
  · rintro ⟨m, hm, hhandler, hreason, hname, hparams⟩
    obtain ⟨runOnMainThread, hrun⟩ := Option.ne_none_iff_exists'.mp hhandler
    exact ⟨⟨name, type, runOnMainThread⟩, List.mem_filterMap.mpr ⟨m, hm,
      generate_eq_some_iff.mpr ⟨hrun, hreason, hname, hparams⟩⟩, rfl⟩

/-- No block calls a handler twice. -/
theorem nodup_block (clz : ListenerClass L E) :
    ((clz.methods.filterMap (generate clz)).map fun h => (h.name, h.event)).Nodup := by
  refine List.pairwise_map.mpr (List.pairwise_filterMap.mpr ?_)
  refine (List.pairwise_map.mp clz.nodup).imp fun {m m'} hdiffer h hm h' hm' heq => hdiffer ?_
  obtain ⟨-, -, hname, hparams⟩ := generate_eq_some_iff.mp hm
  obtain ⟨-, -, hname', hparams'⟩ := generate_eq_some_iff.mp hm'
  obtain ⟨hnames, hevents⟩ := Prod.mk.inj heq
  rw [hname, hname', hparams, hparams', hnames, hevents]

/-- A listener with a handler has an annotated method. -/
theorem Handles.annotated (h : Handles clz name type) :
    (clz.methods.any fun m => m.eventHandler.isSome) = true := by
  obtain ⟨m, hm, hhandler, -⟩ := h
  exact List.any_eq_true.mpr ⟨m, hm, Option.isSome_iff_ne_none.mpr hhandler⟩

variable [PartialOrder L] [DecidableLE L] [PartialOrder E] [DecidableLE E] [DecidableEq E]

/-- The handlers that are called, by their names and event types. -/
def called (p : Program L E) (obj : L) (event : E) : List (Text × E) :=
  (deliver [process p] obj event).map fun h => (h.name, h.event)

/-- A handler is called for the events of its type, and of the subtypes that can fire their
parents, and once. -/
def Dispatches (p : Program L E) : Prop :=
  ∀ obj event, (called p obj event).Nodup ∧ ∀ name type,
    (name, type) ∈ called p obj event ↔
      (∃ clz ∈ p.listeners, obj ≤ clz.clz ∧ Handles clz name type) ∧
        (event = type ∨ event < type ∧ CanFireParent p event)

/-! ## What is called -/

omit [PartialOrder L] [DecidableLE L] in
/-- A handler of an event type is called for the type itself, and for the subtypes if the type
can fire its parents. -/
theorem canFire_iff :
    canFire [process p] type event = true ↔
      event = type ∨ event < type ∧ CanFireParent p type := by
  have hparent : ([process p].any fun i => i.parentMap.contains type) = true ↔
      CanFireParent p type := by
    simp [process, CanFireParent]
  unfold canFire
  by_cases hfires : CanFireParent p type
  · rw [if_pos (hparent.mpr hfires), decide_eq_true_iff, le_iff_eq_or_lt]
    exact or_congr_right (and_iff_left hfires).symm
  · rw [if_neg (mt hparent.mp hfires), decide_eq_true_iff]
    exact (or_iff_left fun h => hfires h.2).symm

/-- The calls in the block of a class, for an object. -/
def calls (p : Program L E) (obj : L) (event : E) (clz : ListenerClass L E) : List (Text × E) :=
  if obj ≤ clz.clz then
    ((clz.methods.filterMap (generate clz)).filter fun h =>
      canFire [process p] h.event event).map fun h => (h.name, h.event)
  else []

/-- The calls for an object, class by class. -/
theorem called_eq (p : Program L E) (obj : L) (event : E) :
    called p obj event =
      (p.listeners.filter fun clz => clz.methods.any fun m => m.eventHandler.isSome).flatMap
        (calls p obj event) := by
  unfold called deliver onEvent
  rw [List.flatMap_singleton, List.map_flatMap]
  simp only [process, List.flatMap_map]
  refine congrArg (List.flatMap · _) (funext fun clz => ?_)
  unfold calls
  split <;> rfl

/-- **Which handlers are called**: those for the event, and those for its parents where it may fire
them. -/
theorem mem_calls_iff :
    (name, type) ∈ calls p obj event clz ↔ obj ≤ clz.clz ∧ Handles clz name type ∧
      (event = type ∨ event < type ∧ CanFireParent p type) := by
  unfold calls
  by_cases hobj : obj ≤ clz.clz
  · rw [if_pos hobj, List.mem_map, ← mem_block_iff, ← canFire_iff]
    constructor
    · rintro ⟨h, hmem, heq⟩
      obtain ⟨hblock, hfires⟩ := List.mem_filter.mp hmem
      rw [(Prod.mk.inj heq).2] at hfires
      exact ⟨hobj, ⟨h, hblock, heq⟩, hfires⟩
    · rintro ⟨-, ⟨h, hblock, heq⟩, hfires⟩
      rw [← (Prod.mk.inj heq).2] at hfires
      exact ⟨h, List.mem_filter.mpr ⟨hblock, hfires⟩, heq⟩
  · rw [if_neg hobj]
    exact ⟨fun h => absurd h List.not_mem_nil, fun h => absurd h.1 hobj⟩

/-- None is called twice. -/
theorem nodup_calls (p : Program L E) (obj : L) (event : E) (clz : ListenerClass L E) :
    (calls p obj event clz).Nodup := by
  unfold calls
  split
  · exact (nodup_block clz).sublist (List.filter_sublist.map _)
  · exact List.nodup_nil

/-- **What is called**: the handlers of all classes the object is an instance of, for the event
types `canFire` is true of. -/
theorem mem_called_iff :
    (name, type) ∈ called p obj event ↔
      (∃ clz ∈ p.listeners, obj ≤ clz.clz ∧ Handles clz name type) ∧
        (event = type ∨ event < type ∧ CanFireParent p type) := by
  rw [called_eq, List.mem_flatMap]
  constructor
  · rintro ⟨clz, hclz, hcall⟩
    obtain ⟨hobj, hhandles, hfires⟩ := mem_calls_iff.mp hcall
    exact ⟨⟨clz, List.mem_of_mem_filter hclz, hobj, hhandles⟩, hfires⟩
  · rintro ⟨⟨clz, hclz, hobj, hhandles⟩, hfires⟩
    exact ⟨clz, List.mem_filter.mpr ⟨hclz, hhandles.annotated⟩,
      mem_calls_iff.mpr ⟨hobj, hhandles, hfires⟩⟩

/-- No class an object is an instance of has a handler another such class has. -/
def NoneOverrides (p : Program L E) : Prop :=
  ∀ obj name type, ∀ clz₁ ∈ p.listeners, ∀ clz₂ ∈ p.listeners,
    obj ≤ clz₁.clz → obj ≤ clz₂.clz → Handles clz₁ name type → Handles clz₂ name type →
      clz₁ = clz₂

/-- **No handler is called twice**, just when none overrides another. -/
theorem nodup_called_iff :
    (∀ obj event, (called p obj event).Nodup) ↔ NoneOverrides p := by
  have hblocks : (p.listeners.filter fun clz =>
      clz.methods.any fun m => m.eventHandler.isSome).Nodup :=
    (List.Nodup.of_map _ p.nodup).filter _
  constructor
  · intro h obj name type clz₁ hclz₁ clz₂ hclz₂ hobj₁ hobj₂ hhandles₁ hhandles₂
    by_contra hne
    have hcalled := h obj type
    rw [called_eq, List.nodup_flatMap] at hcalled
    have hsymm : Std.Symm (Function.onFun List.Disjoint (calls p obj type)) :=
      ⟨fun _ _ h => List.Disjoint.symm h⟩
    have hdisjoint := hcalled.2.forall
      (List.mem_filter.mpr ⟨hclz₁, hhandles₁.annotated⟩)
      (List.mem_filter.mpr ⟨hclz₂, hhandles₂.annotated⟩) hne
    exact hdisjoint (mem_calls_iff.mpr ⟨hobj₁, hhandles₁, .inl rfl⟩)
      (mem_calls_iff.mpr ⟨hobj₂, hhandles₂, .inl rfl⟩)
  · intro h obj event
    rw [called_eq, List.nodup_flatMap]
    refine ⟨fun clz _ => nodup_calls p obj event clz, ?_⟩
    refine (List.Pairwise.and_mem.mp hblocks).imp ?_
    rintro clz₁ clz₂ ⟨hclz₁, hclz₂, hne⟩ ⟨name, type⟩ hcall₁ hcall₂
    obtain ⟨hobj₁, hhandles₁, -⟩ := mem_calls_iff.mp hcall₁
    obtain ⟨hobj₂, hhandles₂, -⟩ := mem_calls_iff.mp hcall₂
    exact hne (h obj name type clz₁ (List.mem_of_mem_filter hclz₁) clz₂
      (List.mem_of_mem_filter hclz₂) hobj₁ hobj₂ hhandles₁ hhandles₂)

/-- The event types of handlers agree with their subtypes on what they can fire. -/
def FlagsAgree (p : Program L E) : Prop :=
  ∀ clz ∈ p.listeners, ∀ name type, Handles clz name type →
    ∀ event < type, CanFireParent p event ↔ CanFireParent p type

/-- **Which handlers an event reaches**: the handlers of a program are called as its events
declare, and once, exactly when each event type of a handler can fire its parents if and only if
its subtypes can, and no handler overrides a handler.

SOURCE: EventBusProcessor.java:58-149, EventBus.java:59-72 -/
theorem dispatches_iff (p : Program L E) : Dispatches p ↔ FlagsAgree p ∧ NoneOverrides p := by
  rw [← nodup_called_iff]
  constructor
  · intro h
    refine ⟨fun clz hclz name type hhandles event hlt => ?_, fun obj event => (h obj event).1⟩
    have hcalled := ((h clz.clz event).2 name type).symm.trans mem_called_iff
    have hhandler : ∃ c ∈ p.listeners, clz.clz ≤ c.clz ∧ Handles c name type :=
      ⟨clz, hclz, le_rfl, hhandles⟩
    have hne : event ≠ type := ne_of_lt hlt
    simpa [hhandler, hne, hlt] using hcalled
  · rintro ⟨hagree, hnodup⟩ obj event
    refine ⟨hnodup obj event, fun name type => mem_called_iff.trans (and_congr_right ?_)⟩
    rintro ⟨clz, hclz, -, hhandles⟩
    exact or_congr_right (and_congr_right fun hlt =>
      (hagree clz hclz name type hhandles event hlt).symm)

/-- An event `0` that extends an event `1` and can fire it, and a listener with a handler for
`1`. -/
def inheritedEvent : Program Nat Nat where
  events := [(0, true)]
  listeners := [⟨0, true, [⟨"onTestEvent".toList, [1], true, false, some true⟩], by decide⟩]
  nodup := by decide

/-- **Not every handler is reached**: the handler for the parent is not called, as the parent is
not annotated. -/
theorem not_dispatches : ¬∀ p : Program Nat Nat, Dispatches p := by
  intro h
  have hcalled := ((h inheritedEvent 0 0).2 "onTestEvent".toList 1).mpr
    ⟨⟨_, List.mem_cons_self, le_rfl, _, List.mem_cons_self, Option.some_ne_none _, rfl, rfl, rfl⟩,
      .inr ⟨by decide, List.mem_cons_self⟩⟩
  exact absurd hcalled (by decide)

end Cream.Model.EventBusProcessor
