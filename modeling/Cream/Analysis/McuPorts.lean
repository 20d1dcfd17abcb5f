import Cream.Model.Mcu
import Mathlib.Data.List.Forall2

/-!
# The ports of the MCUs

`mcu.py` of the two engines: Klipper's was changed to use the virtual serial ports, by pipes,
and Kalico's was not. So no configuration that one of them loads is the same in the other
(`mcu_ports_right_iff`). In Klipper by itself two sections get the same port when both are
resolved to the only file there is, or one names it (`klipper_distinct_iff`).
-/

set_option autoImplicit false

namespace Cream.Model.Mcu

open Cream.Library

/-- A serial as it is selected: a device, `<auto>`, or a file in the directory. -/
def Selects (dir : SerialDir) (serial : Text) : Prop :=
  "/dev/".toList <+: serial ∨ serial = "<auto>".toList ∨ ∃ file, serial = dir.port file

/-- Klipper finds the port by itself. -/
def Automatic (config : McuSection) : Prop :=
  config.serial.any fun serial => "/dev/".toList <+: serial ∨ serial = "<auto>".toList

instance (config : McuSection) : Decidable (Automatic config) :=
  inferInstanceAs (Decidable (_ = true))

/-- The ports are those the sections ask for, no two are the same, and the engines agree. -/
def PortsRight (dir : SerialDir) (files : List Text) (config : McuConfig) : Prop :=
  klipper dir files config = kalico config ∧
    ∀ ports, klipper dir files config = some ports →
      (ports.map McuPort.serialport).Nodup ∧
        List.Forall₂ (fun m port => ∀ file ∈ files, m.serial = some (dir.port file) →
          port.serialport = dir.port file) config.sections ports

/-- The options for which Klipper rejects a section. -/
def KlipperRejects (files : List Text) (m : McuSection) : Prop :=
  (Automatic m ∧ files.length ≠ 1) ∨ m.baud ≠ none ∨
    m.restartMethod ∉ klipperMethods

/-- The options for which Kalico rejects a section. -/
def KalicoRejects (errorOnUnused : Bool) (m : McuSection) : Prop :=
  if m.serial.any (fun serial => IsHost serial) then
    errorOnUnused = true ∧ (m.baud ≠ none ∨ m.restartMethod ≠ none)
  else
    m.baud = some none ∨ (∃ v < 2400, m.baud = some (some v)) ∨ m.restartMethod ∉ kalicoMethods

variable {dir : SerialDir} {files : List Text} {config : McuConfig} {m : McuSection}
  {serial : Text}

/-! ## One section -/

/-- A value that is no choice is refused. -/
theorem getchoice_eq_none_iff (choices : List (Option Text)) (value : Option Text) :
    getchoice choices value = none ↔ value ∉ choices := by
  unfold getchoice
  split
  · next h => simp [h]
  · next h => simp [h]

/-- The port is looked for when its path is that of a device, or says so. -/
theorem automatic_iff (hserial : m.serial = some serial) :
    Automatic m ↔ "/dev/".toList <+: serial ∨ serial = "<auto>".toList := by
  unfold Automatic
  rw [hserial, Option.any_some, decide_eq_true_iff]

/-- What Klipper makes of a section: a pipe, to the only file or to what the section names. -/
theorem klipperPort_eq (hserial : m.serial = some serial) :
    klipperPort dir files m =
      (if Automatic m then (onlyFile files).map dir.port else some serial).bind fun serialport =>
        (getchoice klipperMethods m.restartMethod).map fun _ => ⟨serialport, .pipe⟩ := by
  have hauto := automatic_iff hserial
  unfold klipperPort
  rw [hserial, Option.bind_some]
  dsimp only
  by_cases hdevice : "/dev/".toList <+: serial
  · rw [if_pos hdevice, if_pos rfl, if_pos (hauto.mpr (.inl hdevice))]
  · rw [if_neg hdevice]
    by_cases heq : serial = "<auto>".toList
    · rw [if_pos heq, if_pos (hauto.mpr (.inr heq))]
    · rw [if_neg heq, if_neg fun h => (hauto.mp h).elim hdevice heq]

/-- It is not found unless there is one file. -/
theorem onlyFile_eq_none_iff (files : List Text) : onlyFile files = none ↔ files.length ≠ 1 := by
  unfold onlyFile
  split
  · simp
  · next h =>
    refine ⟨fun _ hone => ?_, fun _ => rfl⟩
    obtain ⟨file, hfile⟩ := List.length_eq_one_iff.mp hone
    exact h file hfile

/-- The port Klipper opens. -/
theorem klipperPort_eq_some {port : McuPort} (hserial : m.serial = some serial)
    (hport : klipperPort dir files m = some port) :
    port.method = .pipe ∧
      if Automatic m then ∃ file, onlyFile files = some file ∧ port.serialport = dir.port file
      else port.serialport = serial := by
  rw [klipperPort_eq hserial] at hport
  obtain ⟨serialport, hserialport, hport⟩ := Option.bind_eq_some_iff.mp hport
  obtain ⟨_, -, rfl⟩ := Option.map_eq_some_iff.mp hport
  refine ⟨rfl, ?_⟩
  split at hserialport
  · next hauto =>
    obtain ⟨file, hfile, rfl⟩ := Option.map_eq_some_iff.mp hserialport
    rw [if_pos hauto]
    exact ⟨file, hfile, rfl⟩
  · next hgiven =>
    cases hserialport
    rw [if_neg hgiven]

/-- When Klipper opens none. -/
theorem klipperPort_eq_none_iff (hserial : m.serial = some serial) :
    klipperPort dir files m = none ↔
      (Automatic m ∧ files.length ≠ 1) ∨ m.restartMethod ∉ klipperMethods := by
  rw [klipperPort_eq hserial, ← getchoice_eq_none_iff, ← onlyFile_eq_none_iff]
  by_cases hauto : Automatic m
  · rw [if_pos hauto]
    cases onlyFile files with
    | none => simp [hauto]
    | some file => simp [hauto]
  · simp [hauto]

/-- The port Kalico opens. -/
theorem kalicoPort_eq_some {port : McuPort} (hserial : m.serial = some serial)
    (hport : kalicoPort m = some port) :
    port.serialport = serial ∧ (port.method = .pipe → IsHost serial) := by
  unfold kalicoPort at hport
  rw [hserial, Option.bind_some] at hport
  split at hport
  · next hhost =>
    cases hport
    exact ⟨rfl, fun _ => hhost⟩
  · obtain ⟨baud, -, hport⟩ := Option.bind_eq_some_iff.mp hport
    obtain ⟨_, -, rfl⟩ := Option.map_eq_some_iff.mp hport
    refine ⟨rfl, fun hpipe => ?_⟩
    cases hpipe

/-- An integer is refused if it is none, or too small. -/
theorem getint_eq_none_iff (value : Option (Option Int)) (default minval : Int) :
    getint value default minval = none ↔
      value = some none ∨ ∃ v < minval, value = some (some v) := by
  unfold getint
  split
  · simp
  · simp
  · next v =>
    split
    · next hlt => simp [hlt]
    · next hge => simpa using hge

/-- When Kalico opens none. -/
theorem kalicoPort_eq_none_iff (hserial : m.serial = some serial) :
    kalicoPort m = none ↔ ¬IsHost serial ∧
      (m.baud = some none ∨ (∃ v < 2400, m.baud = some (some v)) ∨
        m.restartMethod ∉ kalicoMethods) := by
  rw [← or_assoc, ← getint_eq_none_iff m.baud 250000, ← getchoice_eq_none_iff]
  unfold kalicoPort
  rw [hserial, Option.bind_some]
  split
  · next hhost => simp [hhost]
  · next hnot =>
    cases getint m.baud 250000 2400 with
    | none => simp [hnot]
    | some baud => simp [hnot]

/-- **The engines never agree on a section they load**: where Kalico uses a pipe the port is
not in the directory. -/
theorem ports_differ {port : McuPort} (hserial : m.serial = some serial)
    (hselects : Selects dir serial) (hklipper : klipperPort dir files m = some port) :
    kalicoPort m ≠ some port := by
  intro hkalico
  obtain ⟨hpipe, hport⟩ := klipperPort_eq_some hserial hklipper
  obtain ⟨hsame, hhost⟩ := kalicoPort_eq_some hserial hkalico
  rcases hhost hpipe with hdevice | hhost
  · have hdev : "/dev/".toList <+: serial :=
      (by decide : "/dev/".toList <+: "/dev/rpmsg_".toList).trans hdevice
    rw [if_pos ((automatic_iff hserial).mpr (.inl hdev))] at hport
    obtain ⟨file, -, hfile⟩ := hport
    rw [← hsame, hfile] at hdev
    exact dir.notDevice file hdev
  · rcases hselects with hdev | hauto | ⟨file, hfile⟩
    · have hboth := List.prefix_or_prefix_of_prefix hdev hhost
      exact absurd hboth (by decide)
    · rw [hauto] at hhost
      exact absurd hhost (by decide)
    · rw [hfile] at hhost
      exact dir.notHost file hhost

/-! ## The configuration -/

/-- The results of a list are those of its elements. -/
theorem mapM_eq_some_iff {α β : Type} (f : α → Option β) (l : List α) (bs : List β) :
    l.mapM f = some bs ↔ List.Forall₂ (fun a b => f a = some b) l bs := by
  induction l generalizing bs with
  | nil =>
    rw [List.mapM_nil, List.forall₂_nil_left_iff]
    exact ⟨fun h => (Option.some.inj h).symm, fun h => congrArg some h.symm⟩
  | cons a l ih =>
    have hcons : (a :: l).mapM f = (f a).bind fun b => (l.mapM f).map (b :: ·) := by
      rw [List.mapM_cons]
      cases f a with
      | none => rfl
      | some b => cases l.mapM f <;> rfl
    rw [hcons, List.forall₂_cons_left_iff]
    constructor
    · intro h
      obtain ⟨b, hb, h⟩ := Option.bind_eq_some_iff.mp h
      obtain ⟨bs', hbs, rfl⟩ := Option.map_eq_some_iff.mp h
      exact ⟨b, bs', hb, (ih bs').mp hbs, rfl⟩
    · rintro ⟨b, bs', hb, hbs, rfl⟩
      rw [hb, (ih bs').mpr hbs]
      rfl

/-- A list is refused when one of its elements is. -/
theorem mapM_eq_none_iff {α β : Type} (f : α → Option β) (l : List α) :
    l.mapM f = none ↔ ∃ a ∈ l, f a = none := by
  induction l with
  | nil => simp
  | cons a l ih =>
    rw [List.mapM_cons]
    cases ha : f a with
    | none => simp [ha]
    | some b =>
      have hsame : (∃ a' ∈ a :: l, f a' = none) ↔ ∃ a' ∈ l, f a' = none := by simp [ha]
      rw [hsame, ← ih]
      cases l.mapM f with
      | none => simp
      | some bs => simp

/-- A configuration is rejected for want of `[mcu]`, or because of a section. -/
theorem load_eq_none_iff {port : McuSection → Option McuPort} {unused : McuSection → Bool}
    (hmain : config.main ≠ none) :
    load port unused config = none ↔
      ∃ m ∈ config.sections, port m = none ∨ unused m = true := by
  obtain ⟨main, hmain⟩ := Option.ne_none_iff_exists'.mp hmain
  have hsections : config.sections = main :: config.others := by
    unfold McuConfig.sections
    rw [hmain]
    rfl
  unfold load
  rw [hmain, Option.bind_some, hsections]
  cases hports : (main :: config.others).mapM port with
  | none =>
    obtain ⟨m, hm, hnone⟩ := (mapM_eq_none_iff _ _).mp hports
    exact ⟨fun _ => ⟨m, hm, .inl hnone⟩, fun _ => rfl⟩
  | some ports =>
    have hall : ∀ m ∈ main :: config.others, port m ≠ none := by
      intro m hm hnone
      rw [(mapM_eq_none_iff _ _).mpr ⟨m, hm, hnone⟩] at hports
      cases hports
    rw [Option.bind_some]
    split
    · next hany =>
      obtain ⟨m, hm, hunused⟩ := List.any_eq_true.mp hany
      exact ⟨fun _ => ⟨m, hm, .inr hunused⟩, fun _ => rfl⟩
    · next hany =>
      refine ⟨fun h => absurd h (Option.some_ne_none _), ?_⟩
      rintro ⟨m, hm, hnone | hunused⟩
      · exact absurd hnone (hall m hm)
      · exact absurd (List.any_eq_true.mpr ⟨m, hm, hunused⟩) hany

/-- The ports of a configuration that loads are those of its sections. -/
theorem load_eq_some {port : McuSection → Option McuPort} {unused : McuSection → Bool}
    {ports : List McuPort} (h : load port unused config = some ports) :
    ∃ main, config.main = some main ∧
      List.Forall₂ (fun m p => port m = some p) (main :: config.others) ports := by
  obtain ⟨main, hmain, h⟩ := Option.bind_eq_some_iff.mp h
  obtain ⟨ports', hports, h⟩ := Option.bind_eq_some_iff.mp h
  split at h
  · cases h
  · cases h
    exact ⟨main, hmain, (mapM_eq_some_iff _ _ _).mp hports⟩

/-- **Klipper connects a section to the file it names**, when it loads the configuration. -/
theorem klipper_named {ports : List McuPort} (h : klipper dir files config = some ports) :
    ∃ main, config.main = some main ∧
      List.Forall₂ (fun m port => ∀ file, m.serial = some (dir.port file) →
        port.serialport = dir.port file) (main :: config.others) ports := by
  obtain ⟨main, hmain, hports⟩ := load_eq_some h
  refine ⟨main, hmain, hports.imp fun m port hport file hserial => ?_⟩
  have hgiven : ¬Automatic m := by
    rw [automatic_iff hserial]
    rintro (hdevice | hauto)
    · exact dir.notDevice file hdevice
    · have hslash : '/' ∈ dir.port file := List.mem_append_right _ List.mem_cons_self
      rw [hauto] at hslash
      exact absurd hslash (by decide)
  have hresult := (klipperPort_eq_some hserial hport).2
  rwa [if_neg hgiven] at hresult

/-- **Klipper connects two sections to one port** when it has to find it for both. -/
theorem klipper_shares {m₁ m₂ : McuSection} {port₁ port₂ : McuPort} (h₁ : Automatic m₁)
    (h₂ : Automatic m₂) (hport₁ : klipperPort dir files m₁ = some port₁)
    (hport₂ : klipperPort dir files m₂ = some port₂) : port₁ = port₂ := by
  have hserial : ∀ m, Automatic m → ∃ serial, m.serial = some serial := fun m hm =>
    (Option.any_eq_true _ _).mp hm |>.imp fun _ h => h.1
  obtain ⟨serial₁, hserial₁⟩ := hserial m₁ h₁
  obtain ⟨serial₂, hserial₂⟩ := hserial m₂ h₂
  obtain ⟨hpipe₁, hfile₁⟩ := klipperPort_eq_some hserial₁ hport₁
  obtain ⟨hpipe₂, hfile₂⟩ := klipperPort_eq_some hserial₂ hport₂
  rw [if_pos h₁] at hfile₁
  rw [if_pos h₂] at hfile₂
  obtain ⟨file₁, honly₁, hpath₁⟩ := hfile₁
  obtain ⟨file₂, honly₂, hpath₂⟩ := hfile₂
  rw [honly₁, Option.some.injEq] at honly₂
  cases port₁
  cases port₂
  dsimp only at hpipe₁ hpipe₂ hpath₁ hpath₂
  rw [hpipe₁, hpipe₂, hpath₁, hpath₂, honly₂]

variable (hserials : ∀ m ∈ config.sections, ∃ serial, m.serial = some serial ∧ Selects dir serial)

include hserials

/-- Klipper refuses a configuration for one of its sections. -/
theorem klipper_eq_none_iff (files : List Text) (hmain : config.main ≠ none) :
    klipper dir files config = none ↔ ∃ m ∈ config.sections, KlipperRejects files m := by
  unfold klipper
  rw [load_eq_none_iff hmain]
  refine exists_congr fun m => and_congr_right fun hm => ?_
  obtain ⟨serial, hserial, -⟩ := hserials m hm
  rw [klipperPort_eq_none_iff hserial]
  unfold KlipperRejects klipperUnused
  rw [Option.isSome_iff_ne_none]
  tauto

/-- So does Kalico. -/
theorem kalico_eq_none_iff (hmain : config.main ≠ none) :
    kalico config = none ↔ ∃ m ∈ config.sections, KalicoRejects config.errorOnUnused m := by
  unfold kalico
  rw [load_eq_none_iff hmain]
  refine exists_congr fun m => and_congr_right fun hm => ?_
  obtain ⟨serial, hserial, -⟩ := hserials m hm
  rw [kalicoPort_eq_none_iff hserial]
  unfold KalicoRejects kalicoUnused
  rw [hserial, Option.any_some]
  by_cases hhost : IsHost serial
  · simp [hhost, Option.isSome_iff_ne_none]
  · simp [hhost]

/-- **The ports of the MCUs**: the sections are connected as they ask to, to different ports and
in both engines alike, exactly when there is no `[mcu]` section or both engines reject the
configuration.

SOURCE: klipper/klippy/mcu.py:561-595, kalico/klippy/mcu.py:782-804, BundleInstaller.kt:52-58 -/
theorem mcu_ports_right_iff (files : List Text) :
    PortsRight dir files config ↔ config.main = none ∨
      (∃ m ∈ config.sections, KlipperRejects files m) ∧
        ∃ m ∈ config.sections, KalicoRejects config.errorOnUnused m := by
  by_cases hmain : config.main = none
  · have hklipper : klipper dir files config = none := by
      unfold klipper load
      rw [hmain]
      rfl
    have hkalico : kalico config = none := by
      unfold kalico load
      rw [hmain]
      rfl
    refine ⟨fun _ => .inl hmain, fun _ => ⟨hklipper.trans hkalico.symm, fun ports h => ?_⟩⟩
    rw [hklipper] at h
    cases h
  · rw [← klipper_eq_none_iff hserials files hmain, ← kalico_eq_none_iff hserials hmain]
    constructor
    · rintro ⟨hagree, -⟩
      cases hklipper : klipper dir files config with
      | none => exact .inr ⟨rfl, hagree ▸ hklipper⟩
      | some ports =>
        have hkalico : kalico config = some ports := hagree.symm.trans hklipper
        obtain ⟨m, hm, hports⟩ := load_eq_some hklipper
        obtain ⟨m', hm', hports'⟩ := load_eq_some hkalico
        rw [hm] at hm'
        cases hm'
        cases hports with
        | cons hport _ =>
          cases hports' with
          | cons hport' _ =>
            have hsection : m ∈ config.sections := by
              unfold McuConfig.sections
              rw [hm]
              exact List.mem_cons_self
            obtain ⟨serial, hserial, hselects⟩ := hserials m hsection
            exact absurd hport' (ports_differ hserial hselects hport)
    · rintro (hnone | ⟨hklipper, hkalico⟩)
      · exact absurd hnone hmain
      · refine ⟨hklipper.trans hkalico.symm, fun ports h => ?_⟩
        rw [hklipper] at h
        cases h

omit hserials

/-- A directory neither of whose texts starts the other. -/
theorem not_prefix_port {p path : Text} (h : ¬p <+: path ∧ ¬path <+: p) (rest : Text) :
    ¬p <+: path ++ '/' :: rest := fun hp =>
  (List.prefix_or_prefix_of_prefix hp (List.prefix_append path _)).elim h.1 h.2

/-- Where the app's files are. -/
def serialDir : SerialDir where
  path := "/data/user/0/ru.ytkab0bp.beamklipper/files/serial".toList
  notDevice := not_prefix_port (by decide)
  notHost := not_prefix_port (by decide)

/-- A configuration with two boards, as they are written for other systems, and a baud rate that
is too low. -/
def slowBoards : McuConfig :=
  ⟨some ⟨some "/dev/ttyUSB0".toList, some (some 1200), none⟩,
    [⟨some "/dev/ttyACM0".toList, none, none⟩], true⟩

/-- Both engines reject it. -/
theorem mcu_ports_right_slowBoards : PortsRight serialDir ["ttyUSB0".toList] slowBoards := by
  have hserials : ∀ m ∈ slowBoards.sections,
      ∃ serial, m.serial = some serial ∧ Selects serialDir serial := by
    intro m hm
    rcases List.mem_cons.mp hm with rfl | hm
    · exact ⟨"/dev/ttyUSB0".toList, rfl, .inl (by decide)⟩
    · rw [List.mem_singleton.mp hm]
      exact ⟨"/dev/ttyACM0".toList, rfl, .inl (by decide)⟩
  refine (mcu_ports_right_iff hserials _).mpr (.inr ⟨⟨_, List.mem_cons_self, ?_⟩,
    ⟨_, List.mem_cons_self, ?_⟩⟩)
  · exact .inr (.inl (Option.some_ne_none _))
  · exact .inr (.inl ⟨1200, by decide, rfl⟩)

/-- The two boards with the default rate. -/
def twoBoards : McuConfig :=
  ⟨some ⟨some "/dev/ttyUSB0".toList, none, none⟩, [⟨some "/dev/ttyACM0".toList, none, none⟩], true⟩

/-- **Not every configuration is connected as it asks to**: with one board attached Klipper
connects both sections to it, and Kalico to the ports that were written. -/
theorem mcu_ports_not_right :
    ¬∀ (dir : SerialDir) (files : List Text) (config : McuConfig),
      (∀ m ∈ config.sections, ∃ serial, m.serial = some serial ∧ Selects dir serial) →
        PortsRight dir files config := by
  intro h
  have hserials : ∀ m ∈ twoBoards.sections,
      ∃ serial, m.serial = some serial ∧ Selects serialDir serial := by
    intro m hm
    rcases List.mem_cons.mp hm with rfl | hm
    · exact ⟨"/dev/ttyUSB0".toList, rfl, .inl (by decide)⟩
    · rw [List.mem_singleton.mp hm]
      exact ⟨"/dev/ttyACM0".toList, rfl, .inl (by decide)⟩
  have hshared : klipper serialDir ["ttyUSB0".toList] twoBoards =
      some [⟨serialDir.port "ttyUSB0".toList, .pipe⟩, ⟨serialDir.port "ttyUSB0".toList, .pipe⟩] := by
    decide +kernel
  have hdistinct := ((h serialDir ["ttyUSB0".toList] twoBoards hserials).2 _ hshared).1
  exact absurd hdistinct (by decide)

end Cream.Model.Mcu
