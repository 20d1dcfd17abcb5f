import Cream.Library.Text
import Mathlib.Order.Basic

/-!
# The dispatch of events to handlers

`EventBusProcessor.process` generates a class from the annotations of a program: the event
classes that can fire their parents, and for each listener class a block that calls its
handlers. `onEvent` is what that class does, and `canFire` in `EventBus.java` what it asks
before each call. Classes are ordered by what they extend or implement, and a handler is called
by its signature, so that an overridden one is the object's own. Handlers do not throw.

SOURCE: EventBusProcessor.java:58-149, EventBus.java:59-72
-/

set_option autoImplicit false

namespace Cream.Model

open Cream.Library

namespace EventBusProcessor

/-- A method of a listener class. -/
structure Method (E : Type) where
  name : Text
  /-- the types of its parameters -/
  params : List E
  isPublic : Bool
  isStatic : Bool
  /-- `runOnMainThread` of its `@EventHandler` -/
  eventHandler : Option Bool

structure ListenerClass (L E : Type) where
  clz : L
  isPublic : Bool
  methods : List (Method E)
  /-- the methods of a class differ by their signatures -/
  nodup : (methods.map fun m => (m.name, m.params)).Nodup

/-- What the processor finds in a compilation. -/
structure Program (L E : Type) where
  /-- `canFireParent` of each `@Event` class -/
  events : List (E × Bool)
  listeners : List (ListenerClass L E)
  nodup : (listeners.map ListenerClass.clz).Nodup

inductive CantProcessReason where
  | notEnoughArguments
  | tooManyArguments
  | classAccess
  | methodAccess
deriving DecidableEq

/-- A call in the block of a class, behind `canFire(event.class, event)`. -/
structure Handler (E : Type) where
  name : Text
  event : E
  runOnMainThread : Bool

/-- The generated class: `PARENT_MAP` and `IMPL_MAP`. -/
structure Impl (L E : Type) where
  parentMap : List E
  implMap : List (L × List (Handler E))

variable {L E : Type}

/-- Why an annotated method is left out. -/
def cantProcessReason (clz : ListenerClass L E) (m : Method E) : Option CantProcessReason :=
  if !m.isPublic || m.isStatic then some .methodAccess
  else if !clz.isPublic then some .classAccess
  else
    match m.params with
    | [] => some .notEnoughArguments
    | [_] => none
    | _ => some .tooManyArguments

/-- The call that is generated for a method. -/
def generate (clz : ListenerClass L E) (m : Method E) : Option (Handler E) :=
  m.eventHandler.bind fun runOnMainThread =>
    if cantProcessReason clz m = none then
      m.params.head?.map fun event => ⟨m.name, event, runOnMainThread⟩
    else none

/-- `process`. A class with an annotated method has a block, which may stay empty. -/
def process (p : Program L E) : Impl L E where
  parentMap := (p.events.filter fun e => e.2).map Prod.fst
  implMap := (p.listeners.filter fun clz => clz.methods.any fun m => m.eventHandler.isSome).map
    fun clz => (clz.clz, clz.methods.filterMap (generate clz))

variable [PartialOrder L] [DecidableLE L] [PartialOrder E] [DecidableLE E] [DecidableEq E]

/-- `EventBus.canFire`, of an event of a class. -/
def canFire (mImpls : List (Impl L E)) (clz event : E) : Bool :=
  if mImpls.any fun i => i.parentMap.contains clz then decide (event ≤ clz)
  else decide (event = clz)

/-- `onEvent` of the generated class: the calls for an object and an event of these classes. -/
def onEvent (mImpls : List (Impl L E)) (impl : Impl L E) (obj : L) (event : E) :
    List (Handler E) :=
  impl.implMap.flatMap fun en =>
    if obj ≤ en.1 then en.2.filter fun h => canFire mImpls h.event event else []

/-- What `fireEvent0` does for one listener. -/
def deliver (mImpls : List (Impl L E)) (obj : L) (event : E) : List (Handler E) :=
  mImpls.flatMap fun val => onEvent mImpls val obj event

end EventBusProcessor

end Cream.Model
