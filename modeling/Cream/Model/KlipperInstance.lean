import Mathlib.Data.List.AList
import Mathlib.Data.List.Sort
import Mathlib.Logic.Function.Basic
import Mathlib.Tactic.Simps.Basic

/-!
# The instance registry

`KlipperInstance.kt`: the instance objects, the companion's `slots`, `instances` and
`instanceMap`, the first-in first-out queue of blocks posted to `mainHandler`, and the
service bindings that are outstanding (a `bindService` of a `ServiceConnection` not yet
followed by `unbindService` of that connection).

Objects are numbered in the order they are created and kept in `heap`; a number is the
identity a `HashMap<KlipperInstance, Int>` keys on. Connections are numbered by the
`bindService` call that made them. One call of a method, one posted block and one
service callback is one atomic step.

SOURCE: KlipperInstance.kt:46-394
-/

set_option autoImplicit false

namespace Cream.Model

/-- A row of the instances table, as `BeamDB.getInstances` reads it. -/
structure Row where
  id : String
  name : String
  icon : String
  autostart : Bool
deriving DecidableEq, Repr

/-- `KlipperInstance.State`. -/
inductive State where
  | idle
  | starting
  | running
  | stopping
deriving DecidableEq, Repr

/-- The two services an instance binds. -/
inductive Svc where
  | klippy
  | moonraker
deriving DecidableEq, Repr

/-- The service a callback of the other one looks at. -/
def Svc.other : Svc → Svc
  | .klippy => .moonraker
  | .moonraker => .klippy

/-- The identity of an instance object. -/
abbrev Oid := Nat

/-- The identity of a `ServiceConnection` object. -/
abbrev Conn := Nat

/-- `klippyIntent`, `klippyConnection`, `klippyConnected`, and the same three fields of
Moonraker. An intent is known by the number in its service class. -/
structure Link where
  intent : Option Int := none
  connection : Option Conn := none
  connected : Bool := false
deriving DecidableEq, Repr

/-- An instance object. -/
structure KlipperInstance extends Row where
  state : State := .idle
  link : Svc → Link := fun _ => {}
  slot : Int := 0

/-- The code of the blocks posted to `mainHandler`, with what each captures. -/
inductive Block where
  /-- posted by `start` -/
  | bind (o : Oid) (instId : String)
  /-- posted by `stop` -/
  | unbind (o : Oid)
  /-- `stopServerServicesIfNoSlots()` -/
  | stopServers
  /-- posted by `notifyStateChanged(RUNNING)` -/
  | bindServers
deriving DecidableEq, Repr

/-- An outstanding binding of `KlippyService_<slot>` or `MoonrakerService_<slot>`. -/
structure Binding where
  conn : Conn
  owner : Oid
  svc : Svc
  slot : Int
  instId : String
  connected : Bool
deriving DecidableEq, Repr

/-- The two services the registry binds for all instances together. -/
inductive Server where
  | web
  | camera
deriving DecidableEq, Repr

/-- Events fired on `EVENT_BUS`. -/
inductive Event where
  | instanceStateChanged (id : String) (state : State)
  | instancesRefreshed
  | webStateChanged (state : State)
deriving DecidableEq, Repr

/-- A call of `notifyStateChanged`: the object, its state before and after. -/
structure Notification where
  object : Oid
  before : State
  after : State
deriving DecidableEq, Repr

/-- Whether a call came back or ended in an exception; its effects up to there stay. -/
inductive Outcome where
  | returned
  | threw
deriving DecidableEq, Repr

/-- What `start` finds on disk: each directory exists or could be made. -/
structure Dirs where
  directory : Bool
  publicDirectory : Bool
deriving DecidableEq, Repr

structure Registry where
  heap : Oid → KlipperInstance
  created : Oid
  slots : AList fun _ : Oid => Int
  instances : List Oid
  instanceMap : String → Option Oid
  queue : List Block
  bindings : List Binding
  nextConn : Conn
  webServerConnection : Option Conn
  cameraServerConnection : Option Conn
  serverBindings : List (Conn × Server)
  cameraEnabled : Bool
  fired : List Event
  notified : List Notification
  /-- an exception left a posted block, which ends the process -/
  crashed : Bool

namespace Registry

/-- The registry when the process starts. -/
def empty : Registry where
  heap := fun _ => { id := "", name := "", icon := "", autostart := false }
  created := 0
  slots := ∅
  instances := []
  instanceMap := fun _ => none
  queue := []
  bindings := []
  nextConn := 0
  webServerConnection := none
  cameraServerConnection := none
  serverBindings := []
  cameraEnabled := false
  fired := []
  notified := []
  crashed := false

/-- `SLOTS_COUNT`. -/
def SLOTS_COUNT : Nat := 10

/-- The id of an object. -/
def idOf (s : Registry) (o : Oid) : String := (s.heap o).id

/-- The state of an object. -/
def stateOf (s : Registry) (o : Oid) : State := (s.heap o).state

/-- Assign fields of an object. -/
@[simps] def modify (s : Registry) (o : Oid) (f : KlipperInstance → KlipperInstance) : Registry :=
  { s with heap := Function.update s.heap o (f (s.heap o)) }

/-- Assign the fields of one of an object's services. -/
def modifyLink (s : Registry) (o : Oid) (svc : Svc) (f : Link → Link) : Registry :=
  s.modify o fun i => { i with link := Function.update i.link svc (f (i.link svc)) }

/-- `mainHandler.post`. -/
@[simps] def post (s : Registry) (b : Block) : Registry := { s with queue := s.queue ++ [b] }

/-- `EVENT_BUS.fireEvent`. -/
@[simps] def fire (s : Registry) (e : Event) : Registry := { s with fired := s.fired ++ [e] }

/-- `slots.remove(this)` and the loop that removes every key with the same id. -/
def removeSlotsOf (s : Registry) (o : Oid) : Registry :=
  let slots := s.slots.erase o
  { s with
    slots := slots.keys.foldl
      (fun m entry => if s.idOf entry = s.idOf o then m.erase entry else m) slots }

/-- `notifyStateChanged`. -/
def notifyStateChanged (s : Registry) (o : Oid) (state : State) : Registry :=
  let call : Notification := { object := o, before := s.stateOf o, after := state }
  let s := { s with notified := s.notified ++ [call] }
  let s := s.modify o fun i => { i with state := state }
  let s := s.fire (.instanceStateChanged (s.idOf o) state)
  match state with
  | .idle => (s.removeSlotsOf o).post .stopServers
  | .running => s.post .bindServers
  | _ => s

/-- `stop`. -/
def stop (s : Registry) (o : Oid) : Registry :=
  if s.stateOf o ≠ .running ∧ s.stateOf o ≠ .starting then s
  else (s.notifyStateChanged o .stopping).post (.unbind o)

/-- The choice of a slot in `start`; `none` is the out-of-slots exception. -/
def pickSlot (slots : AList fun _ : Oid => Int) : Option Int :=
  let cl := slots.entries.map Sigma.snd
  if cl.isEmpty then some 0
  else if cl.length < SLOTS_COUNT then
    some (((List.range SLOTS_COUNT).map Int.ofNat).find? (fun i => !cl.contains i) |>.getD (-1))
  else none

/-- `start`. The directories below the public one only cause log lines. -/
def start (s : Registry) (o : Oid) (dirs : Dirs) : Registry × Outcome :=
  if s.stateOf o ≠ .idle then (s, .returned)
  else
    let s := s.notifyStateChanged o .starting
    if !dirs.directory then (s.stop o, .returned)
    else if !dirs.publicDirectory then (s.stop o, .returned)
    else
      match pickSlot s.slots with
      | none => (s.modify o fun i => { i with slot := -1 }, .threw)
      | some k =>
        let s := s.modify o fun i => { i with slot := k }
        let s := { s with slots := s.slots.insert o k }
        (s.post (.bind o (s.idOf o)), .returned)

/-- `onKlippyUnbound` and `onMoonrakerUnbound`: each forgets its own service's connection
and looks at the other's flag. -/
def onUnbound (svc : Svc) (s : Registry) (o : Oid) : Registry :=
  let s := s.modifyLink o svc fun l => { l with connection := none, connected := false }
  if ((s.heap o).link svc.other).connected then s else s.notifyStateChanged o .idle

/-- `bindService` with a new connection for one service of an object. The class name is
built from the slot, and only `KlippyService_0` to `KlippyService_9` (and their Moonraker
counterparts) exist. -/
def bindService (s : Registry) (o : Oid) (svc : Svc) (instId : String) : Registry :=
  let slot := (s.heap o).slot
  let c := s.nextConn
  let s := s.modifyLink o svc fun l => { l with intent := some slot, connection := some c }
  { s with
    nextConn := c + 1
    bindings := s.bindings ++ [⟨c, o, svc, slot, instId, false⟩] }

/-- `Class.forName` finds the service class of a slot. -/
def HasService (slot : Int) : Prop := 0 ≤ slot ∧ slot < SLOTS_COUNT

instance (slot : Int) : Decidable (HasService slot) := inferInstanceAs (Decidable (_ ∧ _))

/-- The block `start` posts. A missing class is a `RuntimeException` on the main looper. -/
def runBind (s : Registry) (o : Oid) (instId : String) : Registry :=
  if HasService (s.heap o).slot then
    (s.bindService o .klippy instId).bindService o .moonraker instId
  else { s with crashed := true }

/-- `unbindService` of a connection; it throws, and is caught, when there is none. -/
@[simps] def unbindService (s : Registry) (c : Conn) : Registry :=
  { s with bindings := s.bindings.filter fun b => b.conn ≠ c }

/-- The part of the block `stop` posts that releases one service. -/
def releaseLink (svc : Svc) (s : Registry) (o : Oid) : Registry :=
  match ((s.heap o).link svc).connection with
  | none => s
  | some c => onUnbound svc (s.unbindService c) o

/-- The block `stop` posts. -/
def runUnbind (s : Registry) (o : Oid) : Registry :=
  let s := releaseLink .klippy s o
  let s := releaseLink .moonraker s o
  let s := s.modify o fun i => { i with link := fun _ => {} }
  if s.stateOf o = .stopping then s.notifyStateChanged o .idle else s

/-- `bindService` of the web server or the camera server. -/
def bindServer (s : Registry) (server : Server) : Registry :=
  let c := s.nextConn
  let s := { s with nextConn := c + 1, serverBindings := s.serverBindings ++ [(c, server)] }
  match server with
  | .web => { s with webServerConnection := some c }
  | .camera => { s with cameraServerConnection := some c }

/-- The block `notifyStateChanged(RUNNING)` posts. -/
def runBindServers (s : Registry) : Registry :=
  let s := if s.webServerConnection = none then
    (s.fire (.webStateChanged .starting)).bindServer .web else s
  if s.cameraEnabled ∧ s.cameraServerConnection = none then s.bindServer .camera else s

/-- `hasAnyRunningInstance`. -/
def hasAnyRunningInstance (s : Registry) : Bool :=
  s.slots.keys.any fun inst =>
    s.stateOf inst = .running || s.stateOf inst = .starting || s.stateOf inst = .stopping

/-- `unbindService` of a server connection. -/
def unbindServer (s : Registry) (c : Conn) : Registry :=
  { s with serverBindings := s.serverBindings.filter fun b => b.1 ≠ c }

/-- `stopServerServicesIfNoSlots`. -/
def stopServerServicesIfNoSlots (s : Registry) : Registry :=
  if s.hasAnyRunningInstance then s
  else
    let s := { s with slots := ∅ }
    let s := match s.webServerConnection with
      | none => s
      | some c =>
        let s := (s.fire (.webStateChanged .stopping)).unbindServer c
        { s.fire (.webStateChanged .idle) with webServerConnection := none }
    match s.cameraServerConnection with
    | none => s
    | some c => { s.unbindServer c with cameraServerConnection := none }

/-- Run one posted block. -/
def runBlock (s : Registry) : Block → Registry
  | .bind o instId => s.runBind o instId
  | .unbind o => s.runUnbind o
  | .stopServers => s.stopServerServicesIfNoSlots
  | .bindServers => s.runBindServers

/-- Android reports a binding's service as connected or gone. -/
@[simps] def setConnected (s : Registry) (c : Conn) (connected : Bool) : Registry :=
  { s with
    bindings := s.bindings.map fun b => if b.conn = c then { b with connected := connected } else b }

/-- `onServiceConnected` of a service of an object. -/
def onServiceConnected (s : Registry) (b : Binding) : Registry :=
  let s := s.setConnected b.conn true
  let s := s.modifyLink b.owner b.svc fun l => { l with connected := true }
  if ((s.heap b.owner).link b.svc.other).connected then s.notifyStateChanged b.owner .running
  else s

/-- `onServiceDisconnected` of a service of an object; the binding stays. -/
def onServiceDisconnected (s : Registry) (b : Binding) : Registry :=
  onUnbound b.svc (s.setConnected b.conn false) b.owner

/-- `BeamDB.getInstances`: one new object for each row. -/
def loadRows : Registry → List Row → Registry × List Oid
  | s, [] => (s, [])
  | s, row :: rows =>
    let o := s.created
    let s := { s with heap := Function.update s.heap o { row with }, created := o + 1 }
    let (s, os) := loadRows s rows
    (s, o :: os)

/-- The first object of a list with an id. -/
def findById (s : Registry) (os : List Oid) (id : String) : Option Oid :=
  os.find? fun o => s.idOf o = id

/-- `instanceMap.get`, which falls back to `instances` and remembers what it finds. -/
def instanceMapGet (s : Registry) (key : String) : Registry × Option Oid :=
  match s.instanceMap key with
  | some o => (s, some o)
  | none =>
    match s.findById s.instances key with
    | some o => ({ s with instanceMap := Function.update s.instanceMap key (some o) }, some o)
    | none => (s, none)

/-- `getInstance`. `db` is what `DATABASE.getInstances()` reads, `none` when there is no
database or the query throws. The search over `instances` that stands before the query is
the one `instanceMap.get` has just made. -/
def getInstance (s : Registry) (id : String) (db : Option (List Row)) : Registry × Option Oid :=
  match s.instanceMapGet id with
  | (s, some o) => (s, some o)
  | (s, none) =>
    match db with
    | none => (s, none)
    | some rows =>
      let (s, all) := s.loadRows rows
      match s.findById all id with
      | none => (s, none)
      | some o =>
        ({ s with
          instanceMap := Function.update s.instanceMap id (some o)
          instances := if s.instances.isEmpty then all else s.instances }, some o)

/-- `getInstances`. `db` is what `DATABASE.getInstances()` reads, `none` when there is no
database or the query throws. -/
def getInstances (s : Registry) (db : Option (List Row)) : Registry × List Oid :=
  if s.instances.isEmpty then
    match db with
    | none => (s, s.instances)
    | some rows =>
      let (s, loaded) := s.loadRows rows
      if loaded.isEmpty then (s, s.instances) else ({ s with instances := loaded }, loaded)
  else (s, s.instances)

/-- The copy of the old object's fields in `onInstancesLoadedFromDB`. -/
def adopt (s : Registry) (inst was : Oid) : Registry :=
  let w := s.heap was
  let s := s.modify inst fun i => { i with state := w.state, link := w.link, slot := w.slot }
  let s := { s with slots := s.slots.erase was }
  if w.state ≠ .idle then { s with slots := s.slots.insert inst w.slot } else s

/-- One round of the first loop of `onInstancesLoadedFromDB`. -/
def adoptRow (db : Option (List Row)) (s : Registry) (inst : Oid) : Registry :=
  match s.getInstance (s.idOf inst) db with
  | (s, some was) => s.adopt inst was
  | (s, none) => s

/-- One round of the second loop of `onInstancesLoadedFromDB`. -/
def dropMissing (loadedIds : List String) (s : Registry) (was : Oid) : Registry :=
  if s.idOf was ∈ loadedIds then s
  else { s with slots := s.slots.erase was }.stop was

/-- The autostart loop of `onInstancesLoadedFromDB`; an exception of `start` leaves it. -/
def autostartAll (dirs : String → Dirs) : Registry → List Oid → Registry × Outcome
  | s, [] => (s, .returned)
  | s, inst :: rest =>
    if (s.heap inst).autostart ∧ s.stateOf inst = .idle then
      match s.start inst (dirs (s.idOf inst)) with
      | (s, .returned) => autostartAll dirs s rest
      | (s, .threw) => (s, .threw)
    else autostartAll dirs s rest

/-- `onInstancesLoadedFromDB`. `hash` orders the keys of `slots` as the hash map iterates
over them. -/
def onInstancesLoadedFromDB (s : Registry) (loaded : List Oid) (db : Option (List Row))
    (hash : Oid → Nat) (dirs : String → Dirs) : Registry × Outcome :=
  let s := loaded.foldl (adoptRow db) s
  let loadedIds := loaded.map s.idOf
  let keys := s.slots.keys.insertionSort fun a b => hash a ≤ hash b
  let s := keys.foldl (dropMissing loadedIds) s
  let s := s.post .stopServers
  let s := { s with instances := loaded, instanceMap := fun _ => none }
  let s := s.fire .instancesRefreshed
  autostartAll dirs s loaded

/-- What can happen to the registry. -/
inductive Action where
  | start (o : Oid) (dirs : Dirs)
  | stop (o : Oid)
  | onInstancesLoadedFromDB (rows : List Row) (db : Option (List Row)) (hash : Oid → Nat)
      (dirs : String → Dirs)
  | runPosted
  | onServiceConnected (c : Conn)
  | onServiceDisconnected (c : Conn)

/-- The outstanding binding of a connection. -/
def bindingOf (s : Registry) (c : Conn) : Option Binding := s.bindings.find? fun b => b.conn = c

/-- One step. A call is made on an object that exists, a block is run when one is queued, a
callback arrives only for an outstanding binding, and the rows of a load have distinct ids
(`BeamDB.getInstances` skips repeated ones). -/
def step (s : Registry) (a : Action) : Option Registry :=
  if s.crashed then none
  else
    match a with
    | .start o dirs => if o < s.created then some (s.start o dirs).1 else none
    | .stop o => if o < s.created then some (s.stop o) else none
    | .onInstancesLoadedFromDB rows db hash dirs =>
      if (rows.map Row.id).Nodup then
        let (s, loaded) := s.loadRows rows
        some (s.onInstancesLoadedFromDB loaded db hash dirs).1
      else none
    | .runPosted =>
      match s.queue with
      | [] => none
      | b :: queue => some ({ s with queue := queue }.runBlock b)
    | .onServiceConnected c => (s.bindingOf c).map s.onServiceConnected
    | .onServiceDisconnected c => (s.bindingOf c).map s.onServiceDisconnected

end Registry

end Cream.Model
