import Cream.Library.Text

/-!
# The serial port of an MCU

`MCU.__init__` in `mcu.py` of the two engines, as `BundleInstaller` leaves them: it replaces
`${TTY_PATH}` in both, which Kalico's does not have. A section is its options `serial`, `baud`
and `restart_method`; one with `canbus_uuid` is left out. A configuration is rejected by an
exception in `__init__`, or by `check_unused_options` for an option that was not read.

SOURCE: src/app/src/main/klipper/klippy/mcu.py:561-595, src/app/src/main/kalico/klippy/mcu.py:782-804
-/

set_option autoImplicit false

namespace Cream.Model

open Cream.Library

/-- The directory of the virtual serial ports, which is in the directory of the app's files. -/
structure SerialDir where
  path : Text
  notDevice : ∀ rest, ¬"/dev/".toList <+: path ++ '/' :: rest
  notHost : ∀ rest, ¬"/tmp/klipper_host_".toList <+: path ++ '/' :: rest

/-- A port of the directory. -/
def SerialDir.port (dir : SerialDir) (file : Text) : Text := dir.path ++ '/' :: file

/-- An `[mcu]` section. -/
structure McuSection where
  serial : Option Text
  /-- `none` in it is no integer -/
  baud : Option (Option Int)
  restartMethod : Option Text
deriving DecidableEq

/-- A printer configuration. -/
structure McuConfig where
  /-- `[mcu]` -/
  main : Option McuSection
  /-- `[mcu …]` -/
  others : List McuSection
  /-- `error_on_unused_config_options` of Kalico's `[danger_options]` -/
  errorOnUnused : Bool

/-- The sections of a configuration. -/
def McuConfig.sections (config : McuConfig) : List McuSection :=
  config.main.toList ++ config.others

/-- How `_mcu_identify` connects. -/
inductive ConnectMethod where
  | uart (baud : Int)
  | pipe
deriving DecidableEq

structure McuPort where
  serialport : Text
  method : ConnectMethod
deriving DecidableEq

namespace Mcu

/-- `getint` of an option with a default and a least value. -/
def getint (value : Option (Option Int)) (default minval : Int) : Option Int :=
  match value with
  | none => some default
  | some none => none
  | some (some v) => if v < minval then none else some v

/-- `getchoice`, for an option that may be missing. -/
def getchoice (choices : List (Option Text)) (value : Option Text) : Option (Option Text) :=
  if value ∈ choices then some value else none

/-- `restart_methods` of Klipper. -/
def klipperMethods : List (Option Text) := [none, some "arduino".toList, some "command".toList]

/-- The file there is, if there is one only. -/
def onlyFile : List Text → Option Text
  | [file] => some file
  | _ => none

/-- The port of the section in Klipper. -/
def klipperPort (dir : SerialDir) (files : List Text) (config : McuSection) : Option McuPort :=
  config.serial.bind fun serial =>
    let serialport := if "/dev/".toList <+: serial then "<auto>".toList else serial
    (if serialport = "<auto>".toList then (onlyFile files).map dir.port
      else some serialport).bind fun serialport =>
    (getchoice klipperMethods config.restartMethod).map fun _ => ⟨serialport, .pipe⟩

/-- `restart_methods` of Kalico. -/
def kalicoMethods : List (Option Text) :=
  [none, some "arduino".toList, some "cheetah".toList, some "command".toList,
    some "rpi_usb".toList]

/-- The ports Kalico does not talk to at a baud rate. -/
def IsHost (serial : Text) : Prop :=
  "/dev/rpmsg_".toList <+: serial ∨ "/tmp/klipper_host_".toList <+: serial

instance (serial : Text) : Decidable (IsHost serial) := inferInstanceAs (Decidable (_ ∨ _))

/-- The port of the section in Kalico. -/
def kalicoPort (config : McuSection) : Option McuPort :=
  config.serial.bind fun serial =>
    if IsHost serial then some ⟨serial, .pipe⟩
    else
      (getint config.baud 250000 2400).bind fun baud =>
      (getchoice kalicoMethods config.restartMethod).map fun _ => ⟨serial, .uart baud⟩

/-- `check_unused_options` finds an option Klipper has not read. -/
def klipperUnused (config : McuSection) : Bool := config.baud.isSome

/-- `check_unused_options` finds an option Kalico has not read. -/
def kalicoUnused (config : McuSection) : Bool :=
  config.serial.any (fun serial => IsHost serial) &&
    (config.baud.isSome || config.restartMethod.isSome)

/-- `add_printer_objects`: `[mcu]` and then the others, and the check at the end. Without
`[mcu]` it finds no serial. -/
def load (port : McuSection → Option McuPort) (unused : McuSection → Bool) (config : McuConfig) :
    Option (List McuPort) :=
  config.main.bind fun main =>
    ((main :: config.others).mapM port).bind fun ports =>
      if (main :: config.others).any unused then none else some ports

def klipper (dir : SerialDir) (files : List Text) (config : McuConfig) : Option (List McuPort) :=
  load (klipperPort dir files) klipperUnused config

def kalico (config : McuConfig) : Option (List McuPort) :=
  load kalicoPort (fun m => config.errorOnUnused && kalicoUnused m) config

end Mcu

end Cream.Model
