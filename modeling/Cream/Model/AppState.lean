import Cream.Model.InstanceStore

/-!
# The state the screens show

`AppState.kt`: the two flows of the instances, the handlers of the events the registry
fires, and `refreshInstances`; `MainViewModel.kt`: `anyRunning`. A state is that of the whole
process: its store, how many of the fired events have been handed over on the main queue, and
`AppState`. The flows of the other settings are not part of it.

SOURCE: AppState.kt:29-118, MainViewModel.kt:18-74
-/

set_option autoImplicit false

namespace Cream.Model

open Cream.Library
open Cream.Library.SqlTable (Table)

/-- A `MutableStateFlow` and the `StateFlow` that `distinct` makes of it. -/
structure DistinctFlow (α : Type*) where
  /-- `_instances.value` -/
  source : α
  /-- `instances.value` -/
  value : α
  /-- what `distinctUntilChanged` has let through last since the sharing began -/
  previous : Option α
  /-- the sharing coroutine runs: there is a subscriber, or was one 5000 ms ago -/
  shared : Bool

namespace DistinctFlow

variable {α : Type*}

/-- The initial value of both is the one of the source. -/
def of (a : α) : DistinctFlow α := ⟨a, a, none, false⟩

/-- A subscriber comes. -/
def subscribe (f : DistinctFlow α) : DistinctFlow α := { f with shared := true }

/-- The sharing stops. The value stays, and what was let through is forgotten. -/
def unsubscribe (f : DistinctFlow α) : DistinctFlow α :=
  { f with previous := none, shared := false }

/-- `distinctUntilChanged` drops the source's value. -/
def Drops (areEquivalent : α → α → Bool) (f : DistinctFlow α) : Prop :=
  f.previous.any fun a => areEquivalent a f.source

instance (areEquivalent : α → α → Bool) (f : DistinctFlow α) :
    Decidable (f.Drops areEquivalent) := inferInstanceAs (Decidable (_ = true))

/-- The sharing coroutine takes the source's value. -/
def collect (areEquivalent : α → α → Bool) (f : DistinctFlow α) : DistinctFlow α :=
  if f.Drops areEquivalent then f
  else { f with value := f.source, previous := some f.source }

end DistinctFlow

/-- A process: what it stores, and what its screens show. -/
structure AppState where
  store : Store
  /-- how many of the fired events have been handed over -/
  delivered : Nat
  started : Bool
  instances : DistinctFlow (List Oid)
  instanceStates : DistinctFlow (Finmap fun _ : String => State)

namespace AppState

/-- A process that has just started. -/
def fresh (t : Table) : AppState := ⟨Store.fresh t, 0, false, .of [], .of ∅⟩

/-- The equivalence of the flow of the instances; an id is not null. -/
def areEquivalent (r : Registry) (a b : List Oid) : Bool :=
  a.length = b.length && (a.zip b).all fun (x, y) => r.idOf x = r.idOf y

/-- `list.associate { (it.id ?: it.name) to it.getState() }`. -/
def associate (r : Registry) (list : List Oid) : Finmap fun _ : String => State :=
  list.foldl (fun m it => m.insert (r.idOf it) (r.stateOf it)) ∅

/-- `refreshInstances`. -/
def refreshInstances (s : AppState) : AppState :=
  let (store, list) := s.store.getInstances
  { s with
    store
    instances := { s.instances with source := list }
    instanceStates := { s.instanceStates with source := associate store.registry list } }

/-- `start`. -/
def start (s : AppState) : AppState :=
  if s.started then s else { s with started := true }.refreshInstances

/-- `stop`. -/
def stop (s : AppState) : AppState := { s with started := false }

/-- The handler of an event, if it is registered. -/
def onEvent (s : AppState) (e : Event) : AppState :=
  if s.started then
    match e with
    | .instancesRefreshed => s.refreshInstances
    | .instanceStateChanged id state =>
      { s with
        instanceStates := { s.instanceStates with
          source := s.instanceStates.source.insert id state } }
    | .webStateChanged _ => s
  else s

/-- The two flows. -/
inductive Shown where
  | instances
  | instanceStates
deriving DecidableEq, Repr

/-- Change one of the flows. -/
def onFlow (s : AppState) (f : ∀ {α : Type}, (α → α → Bool) → DistinctFlow α → DistinctFlow α) :
    Shown → AppState
  | .instances => { s with instances := f (areEquivalent s.store.registry) s.instances }
  | .instanceStates => { s with instanceStates := f (fun a b => a = b) s.instanceStates }

/-- What the screens and the main queue do. -/
inductive UiAction where
  /-- the next event is handed over -/
  | deliver
  | start
  | stop
  | subscribe (flow : Shown)
  | unsubscribe (flow : Shown)
  /-- the sharing coroutine of a flow takes its source's value -/
  | collect (flow : Shown)
deriving DecidableEq, Repr

/-- What can happen in the process. -/
inductive Action where
  /-- a call of the database, a getter, another step of the registry, or a new process -/
  | store (c : Store.Call)
  /-- the load when the process starts -/
  | load (hash : Oid → Nat) (dirs : String → Dirs)
  | ui (a : UiAction)

/-- `onInstancesLoadedFromDB(DATABASE.getInstances())`. -/
def load (s : Store) (hash : Oid → Nat) (dirs : String → Dirs) : Option Store :=
  let rows := BeamDB.getInstances s.table
  (s.registry.step (.onInstancesLoadedFromDB rows (some rows) hash dirs)).map fun r =>
    { s with registry := r }

/-- The flow is shared. -/
def Shared (s : AppState) : Shown → Prop
  | .instances => s.instances.shared
  | .instanceStates => s.instanceStates.shared

instance (s : AppState) : DecidablePred s.Shared
  | .instances => inferInstanceAs (Decidable (_ = true))
  | .instanceStates => inferInstanceAs (Decidable (_ = true))

def stepUi (s : AppState) : UiAction → Option AppState
  | .deliver =>
    s.store.registry.fired[s.delivered]?.map { s with delivered := s.delivered + 1 }.onEvent
  | .start => some s.start
  | .stop => some s.stop
  | .subscribe flow => some (s.onFlow (fun _ f => f.subscribe) flow)
  | .unsubscribe flow => some (s.onFlow (fun _ f => f.unsubscribe) flow)
  | .collect flow =>
    if s.Shared flow then some (s.onFlow (fun same f => f.collect same) flow) else none

/-- One step. After a crash only a new process is left. -/
def step (s : AppState) : Action → Option AppState
  | .store .restart => some (fresh s.store.table)
  | .store c => (s.store.step c).map fun store => { s with store }
  | .load hash dirs => (load s.store hash dirs).map fun store => { s with store }
  | .ui a => if s.store.registry.crashed then none else s.stepUi a

/-- `MainViewModel.anyRunning`. -/
def anyRunning (s : AppState) : Bool :=
  s.instances.value.any fun it =>
    s.store.registry.stateOf it = .running || s.store.registry.stateOf it = .starting

end AppState

end Cream.Model
