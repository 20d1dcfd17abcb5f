import Cream.Library.Pattern
import Cream.Library.Transition
import Cream.Model.Confighelper

/-!
# The ports of Moonraker

`BaseMoonrakerService.onStartPython`: the service of an instance that has no moonraker.conf
writes one, with a port that no other file shows. The services run in processes of their own;
a step is one file operation of one of them, and the port lock lets one at a time through. A
file that a service has opened is empty until it is written.

`WebService.getMoonrakerPort` looks for the port of a running instance in the same way.

SOURCE: BaseMoonrakerService.kt:35-41, 79-112, WebService.kt:124-137
-/

set_option autoImplicit false

namespace Cream.Model

open Cream.Library Text Ini ConfigParser

/-- A `UUID` as a text. -/
structure InstanceId where
  id : Text
  chars : ∀ c ∈ id, c.isDigit ∨ c.isLower ∨ c = '-'

instance : DecidableEq InstanceId := fun i j =>
  decidable_of_iff (i.id = j.id) ⟨fun h => by cases i; cases j; cases h; rfl, congrArg _⟩

/-- The device the app runs on. -/
structure Device where
  filesDir : Text
  isValue_filesDir : IsValue filesDir
  /-- the configuration library of Python, and its digits -/
  dialect : Dialect
  pyDigits : Digits
  /-- the digits of `java.util.regex` and of `toInt` -/
  digits : Digits
  /-- `KlipperInstance.getInstances()`; the ports that may have to be tried are `Int`s -/
  instances : List InstanceId
  length_instances : instances.length + 7125 < 2 ^ 31
  /-- the files beside the moonraker.conf of an instance -/
  disk : InstanceId → Disk
  /-- what the components of its Moonraker make of a configuration -/
  loads : InstanceId → Config → Loading

namespace Device

variable (dev : Device)

/-- `KlipperInstance.directory` -/
def directory (i : InstanceId) : Text := dev.filesDir ++ "/instance/".toList ++ i.id

/-- `KlipperInstance.publicDirectory` -/
def publicDirectory (i : InstanceId) : Text := dev.directory i ++ "/public".toList

end Device

namespace BaseMoonrakerService

/-- `port: (\d+)` -/
def MOONRAKER_PORT_PATTERN (dg : Digits) : Pattern :=
  [.text "port: ".toList, .group fun c => (dg.value c).isSome]

/-- The largest `Int`. -/
def MAX_VALUE : Nat := 2147483647

/-- `m.group(1).toInt()` of the first match; `none` too when it throws. -/
def findPort (dg : Digits) (text : Text) : Option Nat := do
  let (_, groups, _) ← (MOONRAKER_PORT_PATTERN dg).find text
  let port ← dg.decimal (← groups.head?)
  if port ≤ MAX_VALUE then some port else none

/-- The loop over `freePort`. -/
def freePortFrom (used : List Nat) : Nat → Nat → Nat
  | 0, freePort => freePort
  | rounds + 1, freePort =>
    if freePort ∈ used then freePortFrom used rounds (freePort + 1) else freePort

/-- The first port from 7125 on that is not used. -/
def freePort (used : List Nat) : Nat := freePortFrom used used.length 7125

/-- `moonraker/default.conf` -/
def DEFAULT_CONF : Text :=
  ("[server]\nhost: 0.0.0.0\nport: ${MOONRAKER_PORT}\nklippy_uds_address: ${KLIPPY_UDS}\n" ++
    "max_upload_size: 1024\n\n[machine]\nprovider: none\n\n[authorization]\ncors_domains:\n" ++
    "    *://my.mainsail.xyz\n    *://app.fluidd.xyz\n    *://*.beam-remote.ru\n" ++
    "    *://*.local\n    *://*.lan\ntrusted_clients:\n    10.0.0.0/8\n    127.0.0.0/8\n" ++
    "    169.254.0.0/16\n    172.16.0.0/12\n    192.168.0.0/16\n    FE80::/10\n" ++
    "    ::1/128\n\n[octoprint_compat]\n\n[history]\n\n[database]\n\n[timelapse]\n" ++
    "output_path: ${TIMELAPSE_OUTPUT}\nframe_path: ${TIMELAPSE_FRAME_PATH}\n").toList

/-- What a service writes. -/
def defaultConf (dev : Device) (i : InstanceId) (freePort : Nat) : Text :=
  let socket := dev.directory i ++ "/klippy_uds".toList
  let tempFramesDir := dev.directory i ++ "/timelapse_frames".toList
  let timelapseOutputDir := dev.publicDirectory i ++ "/timelapses".toList
  DEFAULT_CONF
    |>.replace "${KLIPPY_UDS}".toList socket
    |>.replace "${MOONRAKER_PORT}".toList (toString freePort).toList
    |>.replace "${TIMELAPSE_FRAME_PATH}".toList tempFramesDir
    |>.replace "${TIMELAPSE_OUTPUT}".toList timelapseOutputDir

/-- The components take what a service writes: the app ships it as a configuration that
works. -/
def LoadsDefault (dev : Device) : Prop :=
  ∀ i freePort config, FileSourceWrapper.getConfiguration dev.dialect (dev.disk i)
    (defaultConf dev i freePort) .main = some config → dev.loads i config = .loaded

end BaseMoonrakerService

open BaseMoonrakerService

/-- Where a service is in its configuration step. -/
inductive ConfigPc where
  | outside
  /-- before the port lock -/
  | waiting
  /-- in the loop over the instances: those to come, and the ports found -/
  | scanning (rest : List InstanceId) (used : List Nat)
  /-- the file is open -/
  | opened (freePort : Nat)
  | written
  | done
deriving DecidableEq

/-- The moonraker.conf of every instance, the port lock and the services. -/
structure MoonrakerServices where
  conf : InstanceId → Option Text
  holder : Option InstanceId
  pc : InstanceId → ConfigPc

namespace MoonrakerServices

inductive Event where
  /-- the service of an instance comes to its configuration step -/
  | start (i : InstanceId)
  | next (i : InstanceId)
deriving DecidableEq

def goto (s : MoonrakerServices) (i : InstanceId) (pc : ConfigPc) : MoonrakerServices :=
  { s with pc := Function.update s.pc i pc }

/-- The content of the file of an instance. -/
def write (s : MoonrakerServices) (i : InstanceId) (text : Text) : MoonrakerServices :=
  { s with conf := Function.update s.conf i (some text) }

def step (dev : Device) (s : MoonrakerServices) : Event → Option MoonrakerServices
  | .start i =>
    if i ∈ dev.instances ∧ s.pc i = .outside then
      -- `if (!moonrakerCfg.exists())`, not under the lock
      some (s.goto i (if (s.conf i).isSome then .done else .waiting))
    else none
  | .next i =>
    match s.pc i with
    | .outside | .done => none
    | .waiting =>
      if s.holder = none then
        some ({ s with holder := some i }.goto i (.scanning dev.instances []))
      else none
    | .scanning (otherInst :: rest) used =>
      let found := (s.conf otherInst).bind (findPort dev.digits)
      some (s.goto i (.scanning rest (found.toList ++ used)))
    | .scanning [] used => some ((s.write i []).goto i (.opened (freePort used)))
    | .opened freePort => some ((s.write i (defaultConf dev i freePort)).goto i .written)
    | .written => some ({ s with holder := none }.goto i .done)

/-- Before any service is started. -/
def initial (conf : InstanceId → Option Text) : MoonrakerServices :=
  { conf := conf, holder := none, pc := fun _ => .outside }

/-- No service is in its configuration step. -/
def Settled (s : MoonrakerServices) : Prop := ∀ i, s.pc i = .outside ∨ s.pc i = .done

end MoonrakerServices

/-- `WebService.getMoonrakerPort` -/
def WebService.getMoonrakerPort (dev : Device) (conf : InstanceId → Option Text)
    (running : InstanceId → Bool) : Nat :=
  ((dev.instances.filter running).findSome? fun i =>
    (conf i).bind (findPort dev.digits)).getD 7125

end Cream.Model
