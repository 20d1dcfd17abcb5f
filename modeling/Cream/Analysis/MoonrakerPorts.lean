import Cream.Analysis.MoonrakerConf

/-!
# Distinct Moonraker ports

The files that are there are never changed, and the port lock makes the rest simple: while a
service looks for a port nobody else writes, so the port it picks is one no file shows
(`PortInv`). What the services write they all read as it was meant. What a user has edited
they may not: the port is found by a pattern, not by reading the option, so an instance whose
port is written `port:7130` has none for the app, and a Moonraker that refuses the file runs
from the backup beside it, which the app never reads. `ports_distinct_iff` says which files are
read well enough.

SOURCE: BaseMoonrakerService.kt:79-112, WebService.kt:124-137, server.py:655-679
-/

set_option autoImplicit false

namespace Cream.Analysis

open Cream.Library Cream.Model Text Transition BaseMoonrakerService MoonrakerServices

/-! ## What is to hold -/

section
variable (dev : Device) (conf : InstanceId → Option Text)

/-- The port the Moonraker of an instance listens on: the one of its moonraker.conf, or of the
backup where this is refused. -/
def listensOn (i : InstanceId) : Option Int :=
  (conf i).bind (Server.main dev.dialect dev.pyDigits (dev.loads i) (dev.disk i))

/-- The port the app finds in the file of an instance. -/
def foundPort (i : InstanceId) : Option Nat := (conf i).bind (findPort dev.digits)

/-- No two instances have the same port. -/
def PortsDistinct : Prop :=
  ∀ i ∈ dev.instances, ∀ j ∈ dev.instances, i ≠ j → ∀ p ∈ listensOn dev conf i,
    p ∉ listensOn dev conf j

/-- `getMoonrakerPort` speaks of the Moonraker of a running instance. -/
structure PortsAgree : Prop where
  /-- what is extracted from the file of a running instance is its port -/
  extracted : ∀ (running : InstanceId → Bool) (before after : List InstanceId) (i : InstanceId),
    dev.instances.filter running = before ++ i :: after →
    (∀ j ∈ before, foundPort dev conf j = none) → ∀ q ∈ foundPort dev conf i,
    ∀ p ∈ listensOn dev conf i, p = (WebService.getMoonrakerPort dev conf running : Nat)
  /-- the answer for the only running instance is its port -/
  alone : ∀ i ∈ dev.instances, ∀ p ∈ listensOn dev conf i,
    p = (WebService.getMoonrakerPort dev conf (· = i) : Nat)

/-- The app reads the port of an instance as its Moonraker does. Where it finds none it takes
7125 for it, which is enough if 7125 is the port and no service is to take it. -/
def ReadsPorts : Prop :=
  ∀ i ∈ dev.instances, ∀ p ∈ listensOn dev conf i,
    (∃ q ∈ foundPort dev conf i, p = (q : Int)) ∨
    (foundPort dev conf i = none ∧ p = 7125 ∧
      ((∀ j ∈ dev.instances, (conf j).isSome) ∨
        ∃ j ∈ dev.instances, foundPort dev conf j = some 7125))

end

/-! ## The port a service picks -/

/-- The search passes over used ports only, one in each round. -/
theorem freePortFrom_spec (used : List Nat) (rounds start : Nat) :
    start ≤ freePortFrom used rounds start ∧ freePortFrom used rounds start ≤ start + rounds ∧
      ∀ q, start ≤ q → q < freePortFrom used rounds start → q ∈ used := by
  induction rounds generalizing start with
  | zero => exact ⟨le_rfl, le_rfl, fun q h h' => absurd h' (Nat.not_lt.mpr h)⟩
  | succ rounds ih =>
    obtain ⟨hlow, hhigh, hused⟩ := ih (start + 1)
    unfold freePortFrom
    split
    · next hstart =>
      refine ⟨by lia, by lia, fun q hq hlt => ?_⟩
      rcases Nat.eq_or_lt_of_le hq with rfl | hq
      · exact hstart
      · exact hused q hq hlt
    · exact ⟨le_rfl, by lia, fun q h h' => absurd h' (Nat.not_lt.mpr h)⟩

/-- Where it ends before its last round the port is free. -/
theorem freePortFrom_notMem {used : List Nat} {rounds start : Nat}
    (h : freePortFrom used rounds start < start + rounds) :
    freePortFrom used rounds start ∉ used := by
  induction rounds generalizing start with
  | zero => exact absurd h (Nat.lt_irrefl _)
  | succ rounds ih =>
    unfold freePortFrom at h ⊢
    split
    · next hstart =>
      rw [if_pos hstart] at h
      exact ih (by lia)
    · next hstart => exact hstart

/-- **The port a service picks** is not used: there are more ports to try than used ones. -/
theorem freePort_notMem (used : List Nat) : freePort used ∉ used := by
  intro hmem
  obtain ⟨-, hhigh, hused⟩ := freePortFrom_spec used used.length 7125
  have hall : freePort used = 7125 + used.length := by
    by_contra hne
    exact freePortFrom_notMem (lt_of_le_of_ne hhigh hne) hmem
  have hsub : List.range' 7125 (used.length + 1) ⊆ used := by
    intro q hq
    obtain ⟨hlow, hlt⟩ := List.mem_range'_1.mp hq
    rcases Nat.lt_or_ge q (freePort used) with hq | hq
    · exact hused q hlow hq
    · have heq : q = freePort used := by lia
      rw [heq]
      exact hmem
  have hlength := (List.subperm_of_subset List.nodup_range' hsub).length_le
  rw [List.length_range'] at hlength
  exact absurd hlength (by lia)

/-- A free port is found within as many as are used. -/
theorem freePort_le (used : List Nat) : 7125 ≤ freePort used ∧ freePort used ≤ 7125 + used.length :=
  ⟨(freePortFrom_spec used used.length 7125).1, (freePortFrom_spec used used.length 7125).2.1⟩

/-- 7125 is picked unless it is used. -/
theorem freePort_eq {used : List Nat} (h : 7125 ∉ used) : freePort used = 7125 := by
  obtain ⟨hlow, -, hused⟩ := freePortFrom_spec used used.length 7125
  by_contra hne
  exact h (hused 7125 le_rfl (lt_of_le_of_ne hlow (Ne.symm hne)))

/-! ## What the services keep -/

section
variable {dev : Device} {conf : InstanceId → Option Text} {s t : MoonrakerServices}
  {i j : InstanceId}

/-- The service is under the port lock. -/
def InLock : ConfigPc → Prop
  | .scanning _ _ | .opened _ | .written => True
  | .outside | .waiting | .done => False

/-- A port no other instance shows. -/
def Unshown (dev : Device) (s : MoonrakerServices) (i : InstanceId) (p : Nat) : Prop :=
  p ≤ MAX_VALUE ∧ ∀ j ∈ dev.instances, j ≠ i → foundPort dev s.conf j ≠ some p

/-- What the service of an instance without a file has done. -/
def Progress (dev : Device) (s : MoonrakerServices) (i : InstanceId) : ConfigPc → Prop
  | .outside | .waiting => s.conf i = none
  | .scanning rest used => s.conf i = none ∧ ∃ seen, seen ++ rest = dev.instances ∧
      used.length ≤ seen.length ∧ ∀ j ∈ seen, ∀ q ∈ foundPort dev s.conf j, q ∈ used
  | .opened p => s.conf i = some [] ∧ Unshown dev s i p
  | .written | .done => ∃ p, s.conf i = some (defaultConf dev i p) ∧ Unshown dev s i p

/-- What holds while services come and go. -/
structure PortInv (dev : Device) (conf : InstanceId → Option Text) (s : MoonrakerServices) :
    Prop where
  kept : ∀ i, (conf i).isSome → s.conf i = conf i ∧ (s.pc i = .outside ∨ s.pc i = .done)
  progress : ∀ i, conf i = none → Progress dev s i (s.pc i)
  known : ∀ i, s.pc i ≠ .outside → i ∈ dev.instances
  holder : ∀ i, InLock (s.pc i) → s.holder = some i

/-- Before any service has been started. -/
theorem PortInv.initial (dev : Device) (conf : InstanceId → Option Text) :
    PortInv dev conf (MoonrakerServices.initial conf) where
  kept _ _ := ⟨rfl, .inl rfl⟩
  progress _ h := h
  known _ h := absurd rfl h
  holder _ h := h.elim

/-- INTERNAL: a step of a service that writes nothing. -/
theorem PortInv.goto (h : PortInv dev conf s) {pc : ConfigPc} (hnone : conf i = none)
    (hpc : s.pc i ≠ .outside ∨ i ∈ dev.instances) (hold : Option InstanceId)
    (hprogress : Progress dev s i pc)
    (hholder : ∀ j, InLock (Function.update s.pc i pc j) → hold = some j) :
    PortInv dev conf ({ s with holder := hold }.goto i pc) where
  kept j hj := by
    obtain ⟨hconf, hout⟩ := h.kept j hj
    have hne : j ≠ i := by
      rintro rfl
      rw [hnone] at hj
      cases hj
    refine ⟨hconf, ?_⟩
    unfold MoonrakerServices.goto
    simp only [Function.update_of_ne hne]
    exact hout
  progress j hj := by
    unfold MoonrakerServices.goto
    by_cases hji : j = i
    · subst hji
      simp only [Function.update_self]
      cases pc <;> exact hprogress
    · simp only [Function.update_of_ne hji]
      have hold := h.progress j hj
      cases hpc : s.pc j <;> rw [hpc] at hold <;> exact hold
  known j hj := by
    unfold MoonrakerServices.goto at hj
    by_cases hji : j = i
    · subst hji
      exact hpc.elim (h.known j) id
    · simp only [Function.update_of_ne hji] at hj
      exact h.known j hj
  holder j hj := hholder j hj

/-- INTERNAL: a service under the lock writes its file; what it writes shows no port, or one
that nobody shows. -/
theorem PortInv.write (h : PortInv dev conf s) {text : Text} {pc : ConfigPc}
    (hlock : InLock (s.pc i)) (hnone : conf i = none)
    (hfound : ∀ q ∈ findPort dev.digits text, ∀ j ∈ dev.instances, j ≠ i →
      foundPort dev s.conf j ≠ some q)
    (hprogress : Progress dev ((s.write i text).goto i pc) i pc) :
    PortInv dev conf ((s.write i text).goto i pc) := by
  have hother : ∀ {j}, j ≠ i → ((s.write i text).goto i pc).conf j = s.conf j ∧
      ((s.write i text).goto i pc).pc j = s.pc j := fun hj =>
    ⟨Function.update_of_ne hj _ _, Function.update_of_ne hj _ _⟩
  have hself : ((s.write i text).goto i pc).pc i = pc := Function.update_self ..
  have hholder := h.holder i hlock
  -- nobody else is under the lock
  have hout : ∀ {j}, j ≠ i → ¬InLock (s.pc j) := fun hj hlock' => by
    have heq := h.holder _ hlock'
    rw [hholder] at heq
    exact hj (Option.some.inj heq).symm
  have hunshown : ∀ {j p}, j ≠ i → j ∈ dev.instances → foundPort dev s.conf j = some p →
      Unshown dev s j p → Unshown dev ((s.write i text).goto i pc) j p := by
    intro j p hj hmem hp hun
    refine ⟨hun.1, fun k hk hkj => ?_⟩
    by_cases hki : k = i
    · subst hki
      intro hshow
      have hq : p ∈ findPort dev.digits text := by
        have hself : ((s.write k text).goto k pc).conf k = some text := Function.update_self ..
        unfold foundPort at hshow
        rwa [hself, Option.bind_some] at hshow
      exact hfound p hq j hmem hj hp
    · unfold foundPort
      rw [(hother hki).1]
      exact hun.2 k hk hkj
  constructor
  · intro j hj
    have hji : j ≠ i := by
      rintro rfl
      rw [hnone] at hj
      cases hj
    rw [(hother hji).1, (hother hji).2]
    exact h.kept j hj
  · intro j hj
    by_cases hji : j = i
    · subst hji
      rw [hself]
      exact hprogress
    · have hold := h.progress j hj
      have hnot := hout hji
      rw [(hother hji).2]
      cases hpcj : s.pc j with
      | outside =>
        rw [hpcj] at hold
        exact (hother hji).1.trans hold
      | waiting =>
        rw [hpcj] at hold
        exact (hother hji).1.trans hold
      | scanning rest used => exact absurd (by rw [hpcj]; trivial) hnot
      | opened p => exact absurd (by rw [hpcj]; trivial) hnot
      | written => exact absurd (by rw [hpcj]; trivial) hnot
      | done =>
        rw [hpcj] at hold
        obtain ⟨p, hconf, hun⟩ := hold
        have hmem := h.known j (by rw [hpcj]; simp)
        have hshow : foundPort dev s.conf j = some p := by
          unfold foundPort
          rw [hconf, Option.bind_some, findPort_defaultConf dev j dev.digits hun.1]
        exact ⟨p, (hother hji).1.trans hconf, hunshown hji hmem hshow hun⟩
  · intro j hj
    by_cases hji : j = i
    · subst hji
      refine h.known j fun hout' => ?_
      rw [hout'] at hlock
      exact hlock
    · rw [(hother hji).2] at hj
      exact h.known j hj
  · intro j hj
    by_cases hji : j = i
    · subst hji
      exact hholder
    · rw [(hother hji).2] at hj
      exact absurd hj (hout hji)

/-- The service of an instance that had a file is through at once. -/
theorem PortInv.start_kept (h : PortInv dev conf s) (hconf : (conf i).isSome)
    (hi : i ∈ dev.instances) : PortInv dev conf (s.goto i .done) := by
  have hpc : ∀ j, j ≠ i → (s.goto i .done).pc j = s.pc j := fun j hj =>
    Function.update_of_ne hj _ _
  have hself : (s.goto i .done).pc i = .done := Function.update_self ..
  constructor
  case kept =>
    intro j hj
    by_cases hji : j = i
    · subst hji
      exact ⟨(h.kept j hj).1, .inr hself⟩
    · rw [hpc j hji]
      exact h.kept j hj
  case progress =>
    intro j hj
    have hji : j ≠ i := by
      rintro rfl
      rw [hj] at hconf
      cases hconf
    have hold := h.progress j hj
    rw [hpc j hji]
    cases hpcj : s.pc j <;> rw [hpcj] at hold <;> exact hold
  case known =>
    intro j hj
    by_cases hji : j = i
    · exact hji ▸ hi
    · rw [hpc j hji] at hj
      exact h.known j hj
  case holder =>
    intro j hj
    by_cases hji : j = i
    · subst hji
      rw [hself] at hj
      exact hj.elim
    · rw [hpc j hji] at hj
      exact h.holder j hj

/-- Only the service of an instance without a file is on its way. -/
theorem PortInv.conf_none (h : PortInv dev conf s) (hout : s.pc i ≠ .outside)
    (hdone : s.pc i ≠ .done) : conf i = none := by
  cases hconf : conf i with
  | none => rfl
  | some f => exact absurd (h.kept i (by rw [hconf]; rfl)).2 (by simp [hout, hdone])

/-- While nobody else holds the lock, one service may go where it holds it itself. -/
theorem PortInv.holders (h : PortInv dev conf s) {pc : ConfigPc} {hold : Option InstanceId}
    (hfree : s.holder = some i ∨ s.holder = none) (hself : InLock pc → hold = some i)
    (j : InstanceId) (hj : InLock (Function.update s.pc i pc j)) : hold = some j := by
  by_cases hji : j = i
  · subst hji
    rw [Function.update_self] at hj
    exact hself hj
  · rw [Function.update_of_ne hji] at hj
    have hheld := h.holder j hj
    rcases hfree with hs | hs
    · rw [hs] at hheld
      exact absurd (Option.some.inj hheld).symm hji
    · rw [hs] at hheld
      cases hheld

/-- One more file is read, and its port is among the used ones. -/
theorem PortInv.scan (h : PortInv dev conf s) {otherInst : InstanceId} {rest : List InstanceId}
    {used : List Nat} (hpc : s.pc i = .scanning (otherInst :: rest) used) :
    PortInv dev conf (s.goto i (.scanning rest
      (((s.conf otherInst).bind (findPort dev.digits)).toList ++ used))) := by
  have hnone := h.conf_none (i := i) (by rw [hpc]; simp) (by rw [hpc]; simp)
  have hholder := h.holder i (by rw [hpc]; trivial)
  have hold := h.progress i hnone
  rw [hpc] at hold
  obtain ⟨hfile, seen, hseen, hlength, hused⟩ := hold
  refine h.goto hnone (.inl (by rw [hpc]; simp)) s.holder ?_
    (h.holders (.inl hholder) fun _ => hholder)
  refine ⟨hfile, seen ++ [otherInst], by rw [← hseen]; simp, ?_, ?_⟩
  · rw [List.length_append, List.length_append, List.length_singleton]
    have hone : ∀ o : Option Nat, o.toList.length ≤ 1 := by
      intro o
      cases o <;> simp
    have h1 := hone ((s.conf otherInst).bind (findPort dev.digits))
    lia
  · intro j hj q hq
    rcases List.mem_append.mp hj with hj | hj
    · exact List.mem_append_right _ (hused j hj q hq)
    · obtain rfl := List.mem_singleton.mp hj
      exact List.mem_append_left _ (Option.mem_toList.mpr hq)

/-- When all files have been read a port is picked that none of them shows. -/
theorem PortInv.pick (h : PortInv dev conf s) {used : List Nat}
    (hpc : s.pc i = .scanning [] used) :
    PortInv dev conf ((s.write i []).goto i (.opened (freePort used))) := by
  have hnone := h.conf_none (i := i) (by rw [hpc]; simp) (by rw [hpc]; simp)
  have hold := h.progress i hnone
  rw [hpc] at hold
  obtain ⟨hfile, seen, hseen, hlength, hused⟩ := hold
  rw [List.append_nil] at hseen
  subst hseen
  refine h.write (by rw [hpc]; trivial) hnone (fun q hq => nomatch hq) ?_
  refine ⟨Function.update_self .., ?_, fun j hj hji hshow => ?_⟩
  · have hsize := dev.length_instances
    have hle := (freePort_le used).2
    unfold MAX_VALUE
    lia
  · have hsame : ((s.write i []).goto i (.opened (freePort used))).conf j = s.conf j :=
      Function.update_of_ne hji _ _
    unfold foundPort at hshow
    rw [hsame] at hshow
    exact freePort_notMem used (hused j hj _ hshow)

/-- The file is filled, and shows the port that was picked. -/
theorem PortInv.fill (h : PortInv dev conf s) {p : Nat} (hpc : s.pc i = .opened p) :
    PortInv dev conf ((s.write i (defaultConf dev i p)).goto i .written) := by
  have hnone := h.conf_none (i := i) (by rw [hpc]; simp) (by rw [hpc]; simp)
  have hold := h.progress i hnone
  rw [hpc] at hold
  obtain ⟨hfile, hmax, hun⟩ := hold
  have hfound := findPort_defaultConf dev i dev.digits hmax
  refine h.write (by rw [hpc]; trivial) hnone ?_ ?_
  · intro q hq j hj hji hshow
    rw [hfound] at hq
    cases hq
    exact hun j hj hji hshow
  · refine ⟨p, Function.update_self .., hmax, fun j hj hji hshow => hun j hj hji ?_⟩
    have hsame : ((s.write i (defaultConf dev i p)).goto i .written).conf j = s.conf j :=
      Function.update_of_ne hji _ _
    unfold foundPort at hshow ⊢
    rwa [hsame] at hshow

/-- **A step keeps the invariant.** -/
theorem PortInv.step (h : PortInv dev conf s) {ev : MoonrakerServices.Event}
    (hstep : MoonrakerServices.step dev s ev = some t) : PortInv dev conf t := by
  cases ev with
  | start i =>
    simp only [MoonrakerServices.step] at hstep
    split at hstep
    · next hcan =>
      cases hstep
      cases hconf : conf i with
      | some f =>
        have hsome : (conf i).isSome := by rw [hconf]; rfl
        rw [(h.kept i hsome).1, if_pos hsome]
        exact h.start_kept hsome hcan.1
      | none =>
        have hold := h.progress i hconf
        rw [hcan.2] at hold
        have hnone : s.conf i = none := hold
        rw [hnone, Option.isSome_none, if_neg Bool.false_ne_true]
        refine h.goto hconf (.inr hcan.1) s.holder hnone fun j hj => ?_
        by_cases hji : j = i
        · subst hji
          rw [Function.update_self] at hj
          exact hj.elim
        · rw [Function.update_of_ne hji] at hj
          exact h.holder j hj
    · cases hstep
  | next i =>
    simp only [MoonrakerServices.step] at hstep
    split at hstep
    · cases hstep
    · cases hstep
    · next hpc =>
      split at hstep
      · next hfree =>
        cases hstep
        have hnone := h.conf_none (i := i) (by rw [hpc]; simp) (by rw [hpc]; simp)
        have hold := h.progress i hnone
        rw [hpc] at hold
        refine h.goto hnone (.inl (by rw [hpc]; simp)) (some i) ?_
          (h.holders (.inr hfree) fun _ => rfl)
        exact ⟨hold, [], rfl, le_rfl, fun j hj => nomatch hj⟩
      · cases hstep
    · next hpc =>
      cases hstep
      exact h.scan hpc
    · next hpc =>
      cases hstep
      exact h.pick hpc
    · next hpc =>
      cases hstep
      exact h.fill hpc
    · next hpc =>
      cases hstep
      have hnone := h.conf_none (i := i) (by rw [hpc]; simp) (by rw [hpc]; simp)
      have hholder := h.holder i (by rw [hpc]; trivial)
      have hold := h.progress i hnone
      rw [hpc] at hold
      exact h.goto hnone (.inl (by rw [hpc]; simp)) none hold
        (h.holders (.inl hholder) fun hf => hf.elim)

/-- What every run keeps. -/
theorem PortInv.run {es : List MoonrakerServices.Event}
    (hrun : run (MoonrakerServices.step dev) (MoonrakerServices.initial conf) es = some t) :
    PortInv dev conf t :=
  have hstep : ∀ s ev t, PortInv dev conf s → MoonrakerServices.step dev s ev = some t →
      PortInv dev conf t := fun _ _ _ h hstep => h.step hstep
  run_invariant hstep (PortInv.initial dev conf) hrun

/-- INTERNAL: what an instance has when its service has run, or has not been started. -/
theorem PortInv.settled (h : PortInv dev conf s) (hs : s.Settled) (i : InstanceId) :
    ((conf i).isSome ∧ s.conf i = conf i) ∨ (conf i = none ∧ s.conf i = none) ∨
      (conf i = none ∧ ∃ p, s.conf i = some (defaultConf dev i p) ∧ Unshown dev s i p) := by
  cases hconf : conf i with
  | some f =>
    refine .inl ⟨rfl, ?_⟩
    rw [← hconf]
    exact (h.kept i (by rw [hconf]; rfl)).1
  | none =>
    have hprogress := h.progress i hconf
    rcases hs i with hpc | hpc
    · rw [hpc] at hprogress
      exact .inr (.inl ⟨rfl, hprogress⟩)
    · rw [hpc] at hprogress
      exact .inr (.inr ⟨rfl, hprogress⟩)

/-- INTERNAL: the ports of a generated file. -/
theorem ports_defaultConf (hloads : LoadsDefault dev) {p : Nat}
    (hconf : s.conf i = some (defaultConf dev i p)) (hp : p ≤ MAX_VALUE) :
    listensOn dev s.conf i = some (p : Int) ∧ foundPort dev s.conf i = some p := by
  unfold listensOn foundPort
  rw [hconf, Option.bind_some, Option.bind_some, findPort_defaultConf dev i dev.digits hp,
    main_defaultConf dev i hloads dev.pyDigits hp]
  exact ⟨rfl, rfl⟩

/-- The same file has the same ports. -/
theorem ports_of_eq (h : s.conf i = conf i) :
    listensOn dev s.conf i = listensOn dev conf i ∧ foundPort dev s.conf i = foundPort dev conf i := by
  unfold listensOn foundPort
  rw [h]
  exact ⟨rfl, rfl⟩

/-- Without a file there are none. -/
theorem ports_of_none (h : s.conf i = none) :
    listensOn dev s.conf i = none ∧ foundPort dev s.conf i = none := by
  unfold listensOn foundPort
  rw [h]
  exact ⟨rfl, rfl⟩

/-- INTERNAL: a file that was there and one that a service wrote have different ports. -/
theorem old_ne_new (h : PortInv dev conf s) (hreads : ReadsPorts dev conf) {p : Nat}
    (hi : i ∈ dev.instances) (hj : j ∈ dev.instances) (hold : (conf i).isSome)
    (hiconf : s.conf i = conf i) (hnew : conf j = none) (hun : Unshown dev s j p) :
    (p : Int) ∉ listensOn dev s.conf i := by
  intro hlistens
  have hne : ∀ {k}, (conf k).isSome → k ≠ j := by
    rintro k hk rfl
    rw [hnew] at hk
    cases hk
  rw [(ports_of_eq hiconf).1] at hlistens
  rcases hreads i hi _ hlistens with ⟨q, hq, hpq⟩ | ⟨-, hp, hcase⟩
  · obtain rfl : p = q := by exact_mod_cast hpq
    exact hun.2 i hi (hne hold) (by rw [(ports_of_eq hiconf).2]; exact hq)
  · obtain rfl : p = 7125 := Int.ofNat_inj.mp hp
    rcases hcase with hall | ⟨k, hk, hshow⟩
    · have hsome := hall j hj
      rw [hnew] at hsome
      cases hsome
    · have hksome : (conf k).isSome := by
        cases hconf : conf k with
        | some f => rfl
        | none =>
          unfold foundPort at hshow
          rw [hconf] at hshow
          cases hshow
      have hkconf := (h.kept k hksome).1
      exact hun.2 k hk (hne hksome) (by rw [(ports_of_eq hkconf).2]; exact hshow)

/-- **The ports stay distinct.** -/
theorem PortInv.distinct (h : PortInv dev conf s) (hloads : LoadsDefault dev) (hs : s.Settled)
    (hd : PortsDistinct dev conf) (hreads : ReadsPorts dev conf) : PortsDistinct dev s.conf := by
  intro i hi j hj hij p hpi hpj
  rcases h.settled hs i with ⟨hisome, hiconf⟩ | ⟨-, hinone⟩ | ⟨hinew, q, hiconf, hiun⟩
  · rcases h.settled hs j with ⟨hjsome, hjconf⟩ | ⟨-, hjnone⟩ | ⟨hjnew, q, hjconf, hjun⟩
    · rw [(ports_of_eq hiconf).1] at hpi
      rw [(ports_of_eq hjconf).1] at hpj
      exact hd i hi j hj hij p hpi hpj
    · rw [(ports_of_none hjnone).1] at hpj
      cases hpj
    · rw [(ports_defaultConf hloads hjconf hjun.1).1] at hpj
      cases hpj
      exact old_ne_new h hreads hi hj hisome hiconf hjnew hjun hpi
  · rw [(ports_of_none hinone).1] at hpi
    cases hpi
  · rw [(ports_defaultConf hloads hiconf hiun.1).1] at hpi
    cases hpi
    rcases h.settled hs j with ⟨hjsome, hjconf⟩ | ⟨-, hjnone⟩ | ⟨hjnew, q', hjconf, hjun⟩
    · exact old_ne_new h hreads hj hi hjsome hjconf hinew hiun hpj
    · rw [(ports_of_none hjnone).1] at hpj
      cases hpj
    · rw [(ports_defaultConf hloads hjconf hjun.1).1] at hpj
      obtain rfl : q' = q := by exact_mod_cast Option.some.inj hpj
      exact hiun.2 j hj (Ne.symm hij) (ports_defaultConf hloads hjconf hjun.1).2

end

/-! ## The app's reading -/

section
variable {dev : Device} {conf : InstanceId → Option Text} {i : InstanceId}

/-- For an instance that runs alone the web service asks for the port in its file. -/
theorem getMoonrakerPort_alone (hi : i ∈ dev.instances) :
    WebService.getMoonrakerPort dev conf (· = i) = (foundPort dev conf i).getD 7125 := by
  have hall : ∀ l : List InstanceId, (∀ j ∈ l, j = i) → l ≠ [] →
      l.findSome? (fun j => (conf j).bind (findPort dev.digits)) = foundPort dev conf i := by
    intro l hl hne
    induction l with
    | nil => exact absurd rfl hne
    | cons j l ih =>
      obtain rfl := hl j List.mem_cons_self
      rw [List.findSome?_cons]
      by_cases hnil : l = []
      · subst hnil
        unfold foundPort
        cases (conf j).bind (findPort dev.digits) <;> rfl
      · rw [ih (fun k hk => hl k (List.mem_cons_of_mem _ hk)) hnil]
        unfold foundPort
        cases (conf j).bind (findPort dev.digits) <;> rfl
  unfold WebService.getMoonrakerPort
  rw [hall _ (fun j hj => of_decide_eq_true (List.mem_filter.mp hj).2)
    (List.ne_nil_of_mem (List.mem_filter.mpr ⟨hi, decide_eq_true rfl⟩))]

/-- **The app speaks of an instance's port** exactly when it reads its file as Moonraker does,
with 7125 for what it does not find. -/
theorem portsAgree_iff : PortsAgree dev conf ↔ ∀ i ∈ dev.instances, ∀ p ∈ listensOn dev conf i,
    p = ((foundPort dev conf i).getD 7125 : Nat) := by
  constructor
  · intro h i hi p hp
    rw [h.alone i hi p hp, getMoonrakerPort_alone hi]
  · intro h
    constructor
    · intro running before after i hfilter hbefore q hq p hp
      have hi : i ∈ dev.instances := by
        have hmem : i ∈ dev.instances.filter running := by
          rw [hfilter]
          exact List.mem_append_right _ List.mem_cons_self
        exact (List.mem_filter.mp hmem).1
      have hskip : ∀ l : List InstanceId, (∀ j ∈ l, foundPort dev conf j = none) →
          (l ++ i :: after).findSome? (fun j => (conf j).bind (findPort dev.digits)) = some q := by
        intro l hl
        induction l with
        | nil =>
          have hq' : (conf i).bind (findPort dev.digits) = some q := hq
          rw [List.nil_append, List.findSome?_cons, hq']
        | cons j l ih =>
          have hj : (conf j).bind (findPort dev.digits) = none := hl j List.mem_cons_self
          rw [List.cons_append, List.findSome?_cons, hj]
          exact ih fun k hk => hl k (List.mem_cons_of_mem _ hk)
      have hanswer : WebService.getMoonrakerPort dev conf running = q := by
        unfold WebService.getMoonrakerPort
        rw [hfilter, hskip before hbefore]
        rfl
      have hport := h i hi p hp
      have hq' : foundPort dev conf i = some q := hq
      rw [hq'] at hport
      rw [hanswer, hport]
      rfl
    · intro i hi p hp
      rw [getMoonrakerPort_alone hi]
      exact h i hi p hp

end

/-! ## A service on its own -/

section
variable {dev : Device} {s : MoonrakerServices} {i : InstanceId}

/-- Of two places the last one counts. -/
theorem goto_goto (pc pc' : ConfigPc) : (s.goto i pc).goto i pc' = s.goto i pc' := by
  unfold MoonrakerServices.goto
  simp only [Function.update_idem]

variable (dev) in
/-- The loop over the instances, with nobody in between. -/
theorem run_scan (rest : List InstanceId) (used : List Nat) :
    ∃ used', run (MoonrakerServices.step dev) (s.goto i (.scanning rest used))
      (List.replicate rest.length (.next i)) = some (s.goto i (.scanning [] used')) ∧
      ∀ q ∈ used', q ∈ used ∨ ∃ j ∈ rest, foundPort dev s.conf j = some q := by
  induction rest generalizing used with
  | nil => exact ⟨used, rfl, fun q hq => .inl hq⟩
  | cons otherInst rest ih =>
    obtain ⟨used', hrun, hused⟩ :=
      ih (((s.conf otherInst).bind (findPort dev.digits)).toList ++ used)
    refine ⟨used', ?_, fun q hq => ?_⟩
    · rw [List.length_cons, List.replicate_succ, run_cons_eq_some]
      refine ⟨_, ?_, hrun⟩
      have hpc : (s.goto i (.scanning (otherInst :: rest) used)).pc i =
          .scanning (otherInst :: rest) used := Function.update_self ..
      unfold MoonrakerServices.step
      simp only [hpc, goto_goto]
      rfl
    · rcases hused q hq with hq | ⟨j, hj, hshow⟩
      · rcases List.mem_append.mp hq with hq | hq
        · exact .inr ⟨otherInst, List.mem_cons_self, Option.mem_toList.mp hq⟩
        · exact .inl hq
      · exact .inr ⟨j, List.mem_cons_of_mem _ hj, hshow⟩

/-- **One service alone** takes 7125 when no file shows it. -/
theorem run_alone (dev : Device) {conf : InstanceId → Option Text} (hi : i ∈ dev.instances)
    (hnone : conf i = none) (hshow : ∀ j ∈ dev.instances, foundPort dev conf j ≠ some 7125) :
    ∃ es t, run (MoonrakerServices.step dev) (MoonrakerServices.initial conf) es = some t ∧
      t.Settled ∧ t.conf = Function.update conf i (some (defaultConf dev i 7125)) := by
  have hstart : MoonrakerServices.step dev (MoonrakerServices.initial conf) (.start i) =
      some ((MoonrakerServices.initial conf).goto i .waiting) := by
    simp only [MoonrakerServices.step, MoonrakerServices.initial, hi, hnone, true_and, if_true,
      Option.isSome_none, Bool.false_eq_true, if_false]
  set locked : MoonrakerServices := { MoonrakerServices.initial conf with holder := some i }
  have hacquire : MoonrakerServices.step dev ((MoonrakerServices.initial conf).goto i .waiting)
      (.next i) = some (locked.goto i (.scanning dev.instances [])) := by
    have hpc : ((MoonrakerServices.initial conf).goto i .waiting).pc i = .waiting :=
      Function.update_self ..
    have hfree : ((MoonrakerServices.initial conf).goto i .waiting).holder = none := rfl
    have hgoto := goto_goto (s := locked) (i := i) .waiting (.scanning dev.instances [])
    unfold MoonrakerServices.step
    simp only [hpc, hfree, if_true]
    exact congrArg some hgoto
  obtain ⟨used, hscan, hused⟩ := run_scan dev (s := locked) (i := i) dev.instances []
  have hport : freePort used = 7125 := freePort_eq fun hmem => by
    rcases hused _ hmem with h | ⟨j, hj, h⟩
    · cases h
    · exact hshow j hj h
  set opened := (locked.write i []).goto i (.opened 7125)
  set written := (opened.write i (defaultConf dev i 7125)).goto i .written
  have hopen : MoonrakerServices.step dev (locked.goto i (.scanning [] used)) (.next i) =
      some opened := by
    have hpc : (locked.goto i (.scanning [] used)).pc i = .scanning [] used :=
      Function.update_self ..
    unfold MoonrakerServices.step
    simp only [hpc, hport]
    exact congrArg some (goto_goto (s := locked.write i []) (i := i) (.scanning [] used) _)
  have hwrite : MoonrakerServices.step dev opened (.next i) = some written := by
    have hpc : opened.pc i = .opened 7125 := Function.update_self ..
    unfold MoonrakerServices.step
    simp only [hpc]
    rfl
  have hrelease : MoonrakerServices.step dev written (.next i) =
      some ({ written with holder := none }.goto i .done) := by
    have hpc : written.pc i = .written := Function.update_self ..
    unfold MoonrakerServices.step
    simp only [hpc]
  refine ⟨.start i :: .next i :: (List.replicate dev.instances.length (.next i) ++
    [.next i, .next i, .next i]), { written with holder := none }.goto i .done, ?_, ?_, ?_⟩
  · refine run_cons_eq_some.mpr ⟨_, hstart, run_cons_eq_some.mpr ⟨_, hacquire, ?_⟩⟩
    refine run_append_eq_some.mpr ⟨_, hscan, ?_⟩
    refine run_cons_eq_some.mpr ⟨_, hopen, run_cons_eq_some.mpr ⟨_, hwrite, ?_⟩⟩
    exact run_cons_eq_some.mpr ⟨_, hrelease, rfl⟩
  · intro j
    by_cases hj : j = i
    · subst hj
      exact .inr (Function.update_self ..)
    · refine .inl ?_
      have h1 : ({ written with holder := none }.goto i .done).pc j = written.pc j :=
        Function.update_of_ne hj _ _
      have h2 : written.pc j = opened.pc j := Function.update_of_ne hj _ _
      have h3 : opened.pc j = locked.pc j := Function.update_of_ne hj _ _
      rw [h1, h2, h3]
      rfl
  · have hconf : ({ written with holder := none }.goto i .done).conf =
        Function.update (Function.update conf i (some [])) i
          (some (defaultConf dev i 7125)) := rfl
    rw [hconf, Function.update_idem]

end

/-! ## The result -/

/-- **Distinct Moonraker ports**, exactly when the app reads the files that are there well
enough.

SOURCE: BaseMoonrakerService.kt:79-112, WebService.kt:124-137, server.py:655-679 -/
theorem ports_distinct_iff (dev : Device) (conf : InstanceId → Option Text)
    (hloads : LoadsDefault dev) (hd : PortsDistinct dev conf) :
    (∀ es s, run (MoonrakerServices.step dev) (MoonrakerServices.initial conf) es = some s →
      s.Settled → PortsDistinct dev s.conf ∧ PortsAgree dev s.conf) ↔ ReadsPorts dev conf := by
  constructor
  · intro h i hi p hp
    have hagree := portsAgree_iff.mp (h [] _ rfl fun _ => .inl rfl).2 i hi p hp
    cases hfound : foundPort dev conf i with
    | some q =>
      have hq : foundPort dev (MoonrakerServices.initial conf).conf i = some q := hfound
      rw [hq] at hagree
      exact .inl ⟨q, rfl, hagree⟩
    | none =>
      have hq : foundPort dev (MoonrakerServices.initial conf).conf i = none := hfound
      rw [hq] at hagree
      refine .inr ⟨rfl, hagree, ?_⟩
      by_contra hcase
      obtain ⟨hmissing, hshow⟩ := not_or.mp hcase
      obtain ⟨j, hj⟩ := not_forall.mp hmissing
      obtain ⟨hjmem, hjnone⟩ := Classical.not_imp.mp hj
      have hjconf : conf j = none := by simpa using hjnone
      -- the service of `j` takes the port of `i`
      obtain ⟨es, t, hrun, hsettled, hconf⟩ := run_alone dev hjmem hjconf
        fun k hk hk7125 => hshow ⟨k, hk, hk7125⟩
      have hij : i ≠ j := by
        rintro rfl
        unfold listensOn at hp
        rw [hjconf] at hp
        cases hp
      have hdistinct := (h es t hrun hsettled).1 i hi j hjmem hij
      have hlistens : listensOn dev t.conf i = some p := by
        unfold listensOn at hp ⊢
        rw [hconf, Function.update_of_ne hij]
        exact hp
      have hjfile : t.conf j = some (defaultConf dev j 7125) := by
        rw [hconf, Function.update_self]
      have hjlistens := (ports_defaultConf hloads hjfile (by decide)).1
      refine hdistinct p hlistens ?_
      rw [hjlistens, hagree]
      rfl
  · intro hreads es s hrun hsettled
    have hinv := PortInv.run hrun
    refine ⟨hinv.distinct hloads hsettled hd hreads, portsAgree_iff.mpr fun i hi p hp => ?_⟩
    rcases hinv.settled hsettled i with ⟨-, hconf⟩ | ⟨-, hnone⟩ | ⟨-, q, hconf, hun⟩
    · rw [(ports_of_eq hconf).1] at hp
      rw [(ports_of_eq hconf).2]
      rcases hreads i hi p hp with ⟨q, hq, hpq⟩ | ⟨hq, hp7125, -⟩
      · have hq' : foundPort dev conf i = some q := hq
        rw [hq', hpq]
        rfl
      · rw [hq, hp7125]
        rfl
    · rw [(ports_of_none hnone).1] at hp
      cases hp
    · have hports := ports_defaultConf hloads hconf hun.1
      rw [hports.1] at hp
      rw [hports.2]
      exact (Option.some.inj hp).symm

/-! ## A port the app does not find -/

/-- Two instances; the file of the first writes its port without a space. -/
def firstId : InstanceId := ⟨"a".toList, by simp⟩
def secondId : InstanceId := ⟨"b".toList, by simp⟩

def twoInstances : Device where
  filesDir := "/data/user/0/ru.ytkab0bp.beamklipper/files".toList
  isValue_filesDir := by decide +kernel
  dialect := { lower := List.map Char.toLower, lower_ascii := fun _ _ => rfl, toLastBracket := false }
  pyDigits := asciiDigits
  digits := asciiDigits
  instances := [firstId, secondId]
  length_instances := by decide
  disk _ := { backup := none, files := [], glob := fun _ _ => [] }
  loads _ _ := .loaded

def editedConf (i : InstanceId) : Option Text :=
  if i = firstId then some "[server]\nport:7125\n".toList else none

/-- The pattern does not find the port of the edited file. -/
theorem editedConf_ports : listensOn twoInstances editedConf firstId = some 7125 ∧
    foundPort twoInstances editedConf firstId = none ∧ editedConf secondId = none := by
  decide +kernel

/-- As long as the second service has not been started, the ports are distinct. -/
theorem editedConf_distinct : PortsDistinct twoInstances editedConf := by
  have hnone : listensOn twoInstances editedConf secondId = none := by
    unfold listensOn
    rw [editedConf_ports.2.2, Option.bind_none]
  have hmem : ∀ i ∈ twoInstances.instances, i = firstId ∨ i = secondId := fun i hi =>
    (List.mem_cons.mp hi).imp_right List.mem_singleton.mp
  intro i hi j hj hij p hpi hpj
  rcases hmem i hi with rfl | rfl
  · rcases hmem j hj with rfl | rfl
    · exact hij rfl
    · rw [hnone] at hpj
      cases hpj
  · rw [hnone] at hpi
    cases hpi

/-- The service of the second instance takes the port of the first. -/
theorem ports_not_distinct : ¬∀ (dev : Device) (conf : InstanceId → Option Text),
    LoadsDefault dev → PortsDistinct dev conf → ∀ es s,
      run (MoonrakerServices.step dev) (MoonrakerServices.initial conf) es = some s →
      s.Settled → PortsDistinct dev s.conf ∧ PortsAgree dev s.conf := by
  intro h
  have hloads : LoadsDefault twoInstances := fun _ _ _ _ => rfl
  obtain ⟨hfirst, hfound, hsecond⟩ := editedConf_ports
  have hshow : ∀ j ∈ twoInstances.instances, foundPort twoInstances editedConf j ≠ some 7125 := by
    decide +kernel
  obtain ⟨es, t, hrun, hsettled, hconf⟩ := run_alone twoInstances (i := secondId)
    (by decide) hsecond hshow
  have hne : firstId ≠ secondId := by decide
  have hdistinct := (h twoInstances editedConf hloads editedConf_distinct es t hrun hsettled).1
    firstId (by decide) secondId (by decide) hne 7125
  have hlistens : listensOn twoInstances t.conf firstId = some 7125 := by
    unfold listensOn at hfirst ⊢
    rw [hconf, Function.update_of_ne hne]
    exact hfirst
  have hfile : t.conf secondId = some (defaultConf twoInstances secondId 7125) := by
    rw [hconf, Function.update_self]
  exact hdistinct hlistens (ports_defaultConf hloads hfile (by decide)).1

/-- The result for these files: they are not read well enough. -/
theorem ports_distinct_iff_edited : LoadsDefault twoInstances ∧
    PortsDistinct twoInstances editedConf ∧
    ((∀ es s, run (MoonrakerServices.step twoInstances) (MoonrakerServices.initial editedConf) es =
        some s → s.Settled → PortsDistinct twoInstances s.conf ∧ PortsAgree twoInstances s.conf) ↔
      ReadsPorts twoInstances editedConf) :=
  ⟨fun _ _ _ _ => rfl, editedConf_distinct,
    ports_distinct_iff twoInstances editedConf (fun _ _ _ _ => rfl) editedConf_distinct⟩

end Cream.Analysis
