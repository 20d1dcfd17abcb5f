import Mathlib.Data.List.AList
import Mathlib.Data.List.Sort
import Mathlib.Logic.Function.Basic

/-!
# The USB serial ports

`UsbSerialManager.kt`: the three maps `portMap`, `nativePortMap` and `readThreadMap`, and
what is open outside them. Every call of `connect` works on a driver, and so on a port
object, of its own; the port, the native port and the read thread it makes are known by
the number of that call. A call of a method, a broadcast, a thread's start on the main
looper and a thread's I/O error is one atomic step. Interrupting a thread that has not been
started has no effect: its posted start runs it all the same.

SOURCE: UsbSerialManager.kt:31-223, Prefs.kt:177-184
-/

set_option autoImplicit false

namespace Cream.Model

/-- `Prefs.usbDeviceNaming`. -/
inductive UsbDeviceNaming where
  | byPath
  | byVidPid
deriving DecidableEq, Repr

/-- What `getUID` reads of a device. -/
structure UsbDevice where
  vendorId : Nat
  productId : Nat
  deviceName : String
deriving DecidableEq, Repr

/-- `getUID`. -/
def getUID (naming : UsbDeviceNaming) (device : UsbDevice) : String :=
  let toHexString := fun n => String.ofList (Nat.toDigits 16 n)
  match naming with
  | .byVidPid => toHexString device.vendorId ++ "_" ++ toHexString device.productId
  | .byPath => device.deviceName.map fun c => if c = '/' then '_' else c

/-- The calls in `connect` that may throw, the first one with opening the device. -/
inductive OpenStep where
  | openPort
  | rts
  | dtr
  | setParameters
deriving DecidableEq, Repr

/-- A driver the prober found, with what a call of `connect` meets on it. -/
structure UsbSerialDriver where
  device : UsbDevice
  ports : Nat
  permission : Bool
  fails : OpenStep → Bool

/-- `FLAG_RESET_ARDUINO`. -/
def FLAG_RESET_ARDUINO : Nat := 1

/-- The calls `connect` makes before it files the port. -/
def openSteps (flags : Nat) : List OpenStep :=
  let resetArduino := flags &&& FLAG_RESET_ARDUINO ≠ 0
  [.openPort, .rts] ++ (if resetArduino then [.dtr] else []) ++ [.setParameters]

/-- The call that throws. -/
def UsbSerialDriver.failure (drv : UsbSerialDriver) (flags : Nat) : Option OpenStep :=
  (openSteps flags).find? drv.fails

/-- The number of a call of `connect` that came to open its port. -/
abbrev Call := Nat

structure UsbSerialManager where
  usbDeviceNaming : UsbDeviceNaming
  portMap : AList fun _ : String => Call
  nativePortMap : AList fun _ : String => Call
  readThreadMap : AList fun _ : String => Call
  connects : Call
  /-- the uid a call's `ReadThread` was made with -/
  threadUid : Call → String
  /-- the ports opened and not closed -/
  openPorts : List Call
  /-- the native ports made and not released -/
  nativePorts : List Call
  /-- the threads made and not interrupted -/
  readThreads : List Call
  /-- the threads whose start is posted to the main looper -/
  posted : List Call
  started : List Call

namespace UsbSerialManager

/-- The manager when the process starts. -/
def empty (naming : UsbDeviceNaming) : UsbSerialManager where
  usbDeviceNaming := naming
  portMap := ∅
  nativePortMap := ∅
  readThreadMap := ∅
  connects := 0
  threadUid := fun _ => ""
  openPorts := []
  nativePorts := []
  readThreads := []
  posted := []
  started := []

/-- `getUID` under the naming in use. -/
def uidOf (s : UsbSerialManager) (device : UsbDevice) : String :=
  getUID s.usbDeviceNaming device

/-- `connect`. Without a permission it only asks for one, and `drv.ports[0]` throws before
anything is opened when there is no port. -/
def connect (s : UsbSerialManager) (drv : UsbSerialDriver) (flags : Nat) : UsbSerialManager :=
  if !drv.permission then s
  else if drv.ports = 0 then s
  else
    let n := s.connects
    let s := { s with connects := n + 1 }
    match drv.failure flags with
    | some .openPort => s
    | some _ => { s with openPorts := n :: s.openPorts }
    | none =>
      let uid := s.uidOf drv.device
      { s with
        openPorts := n :: s.openPorts
        nativePorts := n :: s.nativePorts
        readThreads := n :: s.readThreads
        threadUid := Function.update s.threadUid n uid
        posted := s.posted ++ [n]
        nativePortMap := s.nativePortMap.insert uid n
        portMap := s.portMap.insert uid n
        readThreadMap := s.readThreadMap.insert uid n }

/-- `close`. The interrupt reaches the thread only when it has been started. -/
def close (s : UsbSerialManager) (uid : String) : UsbSerialManager :=
  let nativePort := s.nativePortMap.lookup uid
  let port := s.portMap.lookup uid
  let thread := s.readThreadMap.lookup uid
  { s with
    nativePortMap := s.nativePortMap.erase uid
    portMap := s.portMap.erase uid
    readThreadMap := s.readThreadMap.erase uid
    nativePorts := s.nativePorts.filter fun n => nativePort ≠ some n
    openPorts := s.openPorts.filter fun n => port ≠ some n
    readThreads := s.readThreads.filter fun n => ¬(thread = some n ∧ n ∈ s.started) }

/-- `connectAll`, on the drivers the prober finds. -/
def connectAll : UsbSerialManager → List UsbSerialDriver → UsbSerialManager
  | s, [] => s
  | s, drv :: drvs =>
    if drv.ports ≠ 0 then connectAll (s.connect drv 0) drvs else connectAll s drvs

/-- The loop of `disconnectAll`. `close` removes the key the iterator stands on, and asked
for another key it throws; `error` is what it leaves. -/
def closeKeys : UsbSerialManager → List String → Except UsbSerialManager UsbSerialManager
  | s, [] => .ok s
  | s, [uid] => .ok (s.close uid)
  | s, uid :: _ :: _ => .error (s.close uid)

/-- `portMap.keys` in the order the hash map iterates over them. -/
def hashKeys (s : UsbSerialManager) (hash : String → Nat) : List String :=
  s.portMap.keys.insertionSort fun a b => hash a ≤ hash b

/-- `disconnectAll`. -/
def disconnectAll (s : UsbSerialManager) (hash : String → Nat) :
    Except UsbSerialManager UsbSerialManager :=
  s.closeKeys (s.hashKeys hash)

/-- The setter of `Prefs.usbDeviceNaming`. -/
def setUsbDeviceNaming (s : UsbSerialManager) (naming : UsbDeviceNaming)
    (drvs : List UsbSerialDriver) (hash : String → Nat) : UsbSerialManager :=
  match s.disconnectAll hash with
  | .error s => s
  | .ok s => { s with usbDeviceNaming := naming }.connectAll drvs

/-- The receiver on `ACTION_USB_DEVICE_ATTACHED` and `ACTION_ON_DEVICE_CONNECTED`: `probed`
is the driver the prober finds for the device. -/
def onAttached (s : UsbSerialManager) (permission : Bool) (probed : Option UsbSerialDriver) :
    UsbSerialManager :=
  if permission then
    match probed with
    | some drv => if drv.ports ≠ 0 then s.connect drv 0 else s
    | none => s
  else s

/-- The receiver on `ACTION_USB_DEVICE_DETACHED`. -/
def onDetached (s : UsbSerialManager) (device : UsbDevice) : UsbSerialManager :=
  s.close (s.uidOf device)

/-- What can happen to the manager. -/
inductive Action where
  | connect (drv : UsbSerialDriver) (flags : Nat)
  | close (uid : String)
  | connectAll (drvs : List UsbSerialDriver)
  | disconnectAll (hash : String → Nat)
  | setUsbDeviceNaming (naming : UsbDeviceNaming) (drvs : List UsbSerialDriver)
      (hash : String → Nat)
  | attached (permission : Bool) (probed : Option UsbSerialDriver)
  | detached (device : UsbDevice)
  /-- the main looper starts a thread -/
  | startThread
  /-- `port.read` throws an `IOException` in a thread -/
  | readError (n : Call)

/-- One step. -/
def step (s : UsbSerialManager) : Action → Option UsbSerialManager
  | .connect drv flags => some (s.connect drv flags)
  | .close uid => some (s.close uid)
  | .connectAll drvs => some (s.connectAll drvs)
  | .disconnectAll hash =>
    match s.disconnectAll hash with
    | .ok s => some s
    | .error s => some s
  | .setUsbDeviceNaming naming drvs hash => some (s.setUsbDeviceNaming naming drvs hash)
  | .attached permission probed => some (s.onAttached permission probed)
  | .detached device => some (s.onDetached device)
  | .startThread =>
    match s.posted with
    | [] => none
    | n :: posted => some { s with posted := posted, started := n :: s.started }
  | .readError n => if n ∈ s.started then some (s.close (s.threadUid n)) else none

end UsbSerialManager

end Cream.Model
