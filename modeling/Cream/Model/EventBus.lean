import Cream.Library.FailFast

/-!
# The delivery of an event

`EventBus.java`: `registerListener`, `unregisterListener` and the loop of `fireEvent0`. The
loop runs on the bus's own thread; the calls of the other two come from handlers of the event
or from other threads, and may happen between any two of its steps. `L` is the type of the
listeners, with the equality `handlers.remove` uses.

SOURCE: EventBus.java:95-152
-/

set_option autoImplicit false

namespace Cream.Model

open Cream.Library.FailFast

/-- Where the loop of `fireEvent0` is. -/
inductive LoopAt where
  /-- at `while (it.hasNext())` -/
  | hasNext
  /-- at `obj = it.next()` -/
  | next
  /-- in `onEvent`, whose exceptions are caught -/
  | onEvent
  /-- at `fireEvent0(event, true, index)` -/
  | catchModification
  | returned
  /-- an exception got out -/
  | threw
deriving DecidableEq, Repr

/-- The list of the bus, and a call of `fireEvent0`. -/
structure Delivery (L : Type*) where
  handlers : ArrayList L
  /-- the list iterated over instead of `handlers`, with `useClone` -/
  clone : Option (ArrayList L)
  it : Itr
  index : Nat
  pc : LoopAt
  /-- whom the event was handed to, in this order -/
  handed : List L

namespace Delivery

variable {L : Type*} [DecidableEq L]

/-- The call `fireEvent0(event, useClone, startIndex)`. -/
def fireEvent0 (s : Delivery L) (useClone : Bool) (startIndex : Nat) : Delivery L :=
  if useClone then
    let clone := ArrayList.ofList s.handlers.elements
    { s with clone := some clone, it := clone.iterator, index := startIndex, pc := .hasNext }
  else
    { s with clone := none, it := s.handlers.iterator, index := startIndex, pc := .hasNext }

/-- `fireEvent`, on the bus's thread. -/
def fireEvent (handlers : ArrayList L) : Delivery L :=
  fireEvent0 ⟨handlers, none, handlers.iterator, 0, .hasNext, []⟩ false 0

/-- The list `it` iterates over. -/
def iterated (s : Delivery L) : ArrayList L := s.clone.getD s.handlers

/-- A step of the loop. -/
def loop (s : Delivery L) (rt : HasNext) : Option (Delivery L) :=
  match s.pc with
  | .hasNext => some { s with pc := if s.it.hasNext s.iterated rt then .next else .returned }
  | .next =>
    match s.it.next s.iterated with
    | .ok (obj, it) => some { s with it := it, pc := .onEvent, handed := s.handed ++ [obj] }
    | .error .concurrentModification => some { s with pc := .catchModification }
    | .error .noSuchElement => some { s with pc := .threw }
  | .onEvent => some { s with index := s.index + 1, pc := .hasNext }
  | .catchModification => some (s.fireEvent0 true s.index)
  | .returned => none
  | .threw => none

/-- What can happen during a delivery. -/
inductive Action (L : Type*) where
  | registerListener (listener : L)
  | unregisterListener (listener : L)
  | loop

/-- One step, until the delivery is over. -/
def step (rt : HasNext) (s : Delivery L) : Action L → Option (Delivery L)
  | .registerListener listener =>
    if s.pc = .returned ∨ s.pc = .threw then none
    else some { s with handlers := s.handlers.add listener }
  | .unregisterListener listener =>
    if s.pc = .returned ∨ s.pc = .threw then none
    else some { s with handlers := s.handlers.remove listener }
  | .loop => s.loop rt

end Delivery

end Cream.Model
