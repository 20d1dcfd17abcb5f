import Cream.Library.Transition
import Cream.Model.NativeSerialPort
import Mathlib.Data.List.Basic
import Mathlib.Tactic.Linarith

/-!
# The life of a native serial port

A native port that was made is in one place at a time (`Inv.place`): a call of `connect` is about
to file it, it is filed under its uid, a call of `close` has taken it out to release it, or it
was released. It is lost when another one is filed over it, and misused when its thread writes
what it has read after the release, or when there is no native port behind it at all. `Orderly`
is the steps where none of this happens, on the state before the step; in every run of such
steps the native code is used as it must be, and a `close` that has returned has seen to all
native ports of its uid (`handles_used_well`).
-/

set_option autoImplicit false

namespace Cream.Model

open Cream.Library.Transition

namespace NativeSerialPorts

variable {s t : NativeSerialPorts} {n i : Nat}

/-! ## What is to hold -/

/-- Only pointers are written to and released that are not null, were returned by `create` and
have not been released before. -/
def UsedWell (natives : List NativeCall) : Prop :=
  ∀ before call after, natives = before ++ call :: after → ∀ p,
    call = .write p ∨ call = .release p → p ≠ 0 ∧ .create p ∈ before ∧ .release p ∉ before

/-- When a call of `close` has returned, every pointer made for its uid before the call has been
released once. -/
def ReleasedOnReturn (s : NativeSerialPorts) : Prop :=
  ∀ c ∈ s.closing, c.pc = .returned → ∀ n < c.before, s.uidOf n = c.uid → s.pointer n ≠ 0 →
    s.natives.count (.release (s.pointer n)) = 1

/-! ## Where a native port is -/

/-- The call is about to file the native port. -/
def Waits (n : Nat) (c : ConnectCall) : Prop := c.n = n ∧ c.pc = .putNativePort

/-- The call has the native port and has not released it. -/
def Holds (n : Nat) (c : CloseCall) : Prop :=
  c.nativePort = some n ∧ (c.pc = .removePort ∨ c.pc = .removeThread ∨ c.pc = .release)

instance (n : Nat) (c : ConnectCall) : Decidable (Waits n c) := inferInstanceAs (Decidable (_ ∧ _))
instance (n : Nat) (c : CloseCall) : Decidable (Holds n c) := inferInstanceAs (Decidable (_ ∧ _))

def waiting (s : NativeSerialPorts) (n : Nat) : Nat := s.connecting.countP fun c => Waits n c

def filed (s : NativeSerialPorts) (n : Nat) : Nat :=
  if s.nativePortMap (s.uidOf n) = some n then 1 else 0

def held (s : NativeSerialPorts) (n : Nat) : Nat := s.closing.countP fun c => Holds n c

def releases (s : NativeSerialPorts) (n : Nat) : Nat := s.natives.count (.release (n + 1))

/-! ## Steps that lose nothing -/

/-- `create` succeeds; no native port is filed over another; a native port is not taken out while
one made before the call is about to be filed; it is not released while its thread has data to
write, and nothing is read for it afterwards; and a call of `close` does not return while another
one still has a native port of its uid to release. -/
def Orderly (s : NativeSerialPorts) : Action → Prop
  | .create _ created => created = true
  | .connect i => ∀ c ∈ s.connecting[i]?, c.pc = .putNativePort →
    s.nativePortMap (s.uidOf c.n) = none
  | .closing i => ∀ c ∈ s.closing[i]?,
    (c.pc = .removeNativePort → ∀ d ∈ s.connecting, d.pc = .putNativePort →
      s.uidOf d.n = c.uid → c.before ≤ d.n) ∧
    (c.pc = .release → ∀ n ∈ c.nativePort, s.thread n ≠ .hasRead) ∧
    (c.pc = .interrupt → ∀ d ∈ s.closing, ∀ n ∈ d.nativePort, Holds n d → d.uid = c.uid →
      c.before ≤ n)
  | .read n => .release (s.pointer n) ∉ s.natives
  | .close _ => True
  | .start _ => True
  | .write _ => True
  | .readError _ => True
  | .finish _ => True

instance (s : NativeSerialPorts) (a : Action) : Decidable (s.Orderly a) :=
  match a with
  | .create _ _ => inferInstanceAs (Decidable (_ = _))
  | .connect i => inferInstanceAs (Decidable (∀ c ∈ s.connecting[i]?, _ → _))
  | .closing i => inferInstanceAs (Decidable (∀ c ∈ s.closing[i]?, _ ∧ _ ∧ _))
  | .read _ => inferInstanceAs (Decidable (¬_))
  | .close _ => inferInstanceAs (Decidable True)
  | .start _ => inferInstanceAs (Decidable True)
  | .write _ => inferInstanceAs (Decidable True)
  | .readError _ => inferInstanceAs (Decidable True)
  | .finish _ => inferInstanceAs (Decidable True)

/-! ## The invariant -/

structure Inv (s : NativeSerialPorts) : Prop where
  pointer : ∀ n < s.made, s.pointer n = n + 1
  created : ∀ n < s.made, .create (n + 1) ∈ s.natives
  connecting : ∀ c ∈ s.connecting, c.n < s.made
  filed : ∀ uid n, s.nativePortMap uid = some n → n < s.made ∧ s.uidOf n = uid
  before : ∀ c ∈ s.closing, c.before ≤ s.made ∧ ∀ m, c.caller = some m → m < s.made
  taken : ∀ c ∈ s.closing, ∀ n, c.nativePort = some n → n < s.made ∧ s.uidOf n = c.uid
  released : ∀ n, .release (n + 1) ∈ s.natives → n < s.made
  place : ∀ n < s.made, s.waiting n + s.filed n + s.held n + s.releases n = 1
  reading : ∀ n, (s.thread n ≠ .ended → n < s.made) ∧ (s.thread n = .hasRead → s.releases n = 0)
  used : UsedWell s.natives
  /-- past the removal, what was made before is neither filed nor about to be -/
  past : ∀ c ∈ s.closing, c.pc ≠ .removeNativePort → ∀ n < c.before, s.uidOf n = c.uid →
    s.waiting n = 0 ∧ s.nativePortMap c.uid ≠ some n
  returned : ∀ c ∈ s.closing, c.pc = .returned → ∀ n < c.before, s.uidOf n = c.uid →
    s.releases n = 1

/-- One more call of a pointer that was created and not released. -/
theorem usedWell_append {natives : List NativeCall} {call : NativeCall} (h : UsedWell natives)
    (hcall : ∀ p, call = .write p ∨ call = .release p →
      p ≠ 0 ∧ .create p ∈ natives ∧ .release p ∉ natives) : UsedWell (natives ++ [call]) := by
  intro before call' after heq p hp
  rcases List.eq_nil_or_concat after with rfl | ⟨after, last, rfl⟩
  · obtain ⟨rfl, hlast⟩ := List.append_inj' heq rfl
    exact hcall p ((List.cons.inj hlast).1 ▸ hp)
  · rw [List.concat_eq_append, ← List.cons_append, ← List.append_assoc] at heq
    exact h before call' after (List.append_inj' heq rfl).1 p hp

/-- Before the first call. -/
theorem inv_empty : Inv empty where
  pointer _ h := (Nat.not_lt_zero _ h).elim
  created _ h := (Nat.not_lt_zero _ h).elim
  connecting _ h := (List.not_mem_nil h).elim
  filed _ _ h := by cases h
  before _ h := (List.not_mem_nil h).elim
  taken _ h := (List.not_mem_nil h).elim
  released _ h := (List.not_mem_nil h).elim
  place _ h := (Nat.not_lt_zero _ h).elim
  reading _ := ⟨fun h => absurd rfl h, nofun⟩
  used before call after h := by
    cases before <;> cases h
  past _ h := (List.not_mem_nil h).elim
  returned _ h := (List.not_mem_nil h).elim

/-! ## Counting -/

/-- What replacing an element does to a count. -/
theorem countP_set_add {α : Type*} {p : α → Bool} {l : List α} {i : Nat} {a b : α}
    (h : l[i]? = some a) :
    (l.set i b).countP p + (if p a then 1 else 0) = l.countP p + if p b then 1 else 0 := by
  obtain ⟨hlt, rfl⟩ := List.getElem?_eq_some_iff.mp h
  rw [List.countP_set hlt]
  by_cases hp : p l[i]
  · have hpos : 0 < l.countP p := List.countP_pos_iff.mpr ⟨_, List.getElem_mem hlt, hp⟩
    simp only [hp, if_true]
    omega
  · simp only [hp, Bool.false_eq_true, if_false]
    omega

/-- The elements after a replacement. -/
theorem mem_set_cases {α : Type*} {l : List α} {b x : α} (h : x ∈ l.set i b) : x ∈ l ∨ x = b :=
  List.mem_or_eq_of_mem_set h

/-! ## The steps of `connect` -/

/-- **A connection is created**, and its pointer is in one map.
SOURCE: UsbSerialManager.kt:150-163, NativeSerialPort.kt:17-28 -/
theorem Inv.create (h : Inv s) (uid : String) : Inv (s.create uid true) := by
  have huid : ∀ n < s.made, (s.create uid true).uidOf n = s.uidOf n :=
    fun n hn => Function.update_of_ne (Nat.ne_of_lt hn) _ _
  have hreleases : ∀ n, (s.create uid true).releases n = s.releases n := by
    intro n
    simp [releases, NativeSerialPorts.create, List.count_append]
  have hwaiting : ∀ n < s.made, (s.create uid true).waiting n = s.waiting n := by
    intro n hn
    have hne : s.made ≠ n := Nat.ne_of_gt hn
    simp [waiting, NativeSerialPorts.create, Waits, hne]
  have hfiled : ∀ n < s.made, (s.create uid true).filed n = s.filed n := by
    intro n hn
    unfold NativeSerialPorts.filed
    rw [huid n hn]
    rfl
  refine ⟨fun n hn => ?_, fun n hn => ?_, fun c hc => ?_, fun x n hn => ?_, fun c hc => ?_,
    fun c hc n hn => ?_, fun n hn => ?_, fun n hn => ?_, fun n => ?_, ?_,
    fun c hc hpc n hn hx => ?_, fun c hc hpc n hn hx => ?_⟩
  · rcases Nat.lt_succ_iff_lt_or_eq.mp hn with hlt | rfl
    · have hsame : (s.create uid true).pointer n = s.pointer n :=
        Function.update_of_ne (Nat.ne_of_lt hlt) _ _
      rw [hsame]
      exact h.pointer n hlt
    · exact Function.update_self _ _ _
  · rcases Nat.lt_succ_iff_lt_or_eq.mp hn with hlt | rfl
    · exact List.mem_append_left _ (h.created n hlt)
    · exact List.mem_append_right _ (List.mem_singleton.mpr rfl)
  · rcases List.mem_append.mp hc with hc | hc
    · exact Nat.lt_succ_of_lt (h.connecting c hc)
    · rw [List.mem_singleton.mp hc]
      exact Nat.lt_succ_self _
  · obtain ⟨hlt, hx⟩ := h.filed x n hn
    exact ⟨Nat.lt_succ_of_lt hlt, by rw [huid n hlt, hx]⟩
  · obtain ⟨hle, hcaller⟩ := h.before c hc
    exact ⟨Nat.le_succ_of_le hle, fun m hm => Nat.lt_succ_of_lt (hcaller m hm)⟩
  · obtain ⟨hlt, hx⟩ := h.taken c hc n hn
    exact ⟨Nat.lt_succ_of_lt hlt, by rw [huid n hlt, hx]⟩
  · rcases List.mem_append.mp hn with hn | hn
    · exact Nat.lt_succ_of_lt (h.released n hn)
    · cases List.mem_singleton.mp hn
  · rcases Nat.lt_succ_iff_lt_or_eq.mp hn with hlt | rfl
    · rw [hwaiting n hlt, hfiled n hlt, hreleases]
      exact h.place n hlt
    · -- the new one is nowhere else
      have hwaits : (s.create uid true).waiting s.made = 1 := by
        have hnone : s.connecting.countP (fun c => Waits s.made c) = 0 := by
          rw [List.countP_eq_zero]
          intro c hc
          have hne := Nat.ne_of_lt (h.connecting c hc)
          simp [Waits, hne]
        have hform : (s.create uid true).waiting s.made =
            (s.connecting ++ [(⟨s.made, .putNativePort⟩ : ConnectCall)]).countP
              fun c => Waits s.made c := rfl
        rw [hform, List.countP_append, hnone]
        simp [Waits]
      have hfiles : (s.create uid true).filed s.made = 0 := by
        refine if_neg fun hsome => ?_
        exact Nat.lt_irrefl _ (h.filed _ _ hsome).1
      have hholds : (s.create uid true).held s.made = 0 := by
        refine List.countP_eq_zero.mpr fun c hc hhold => ?_
        exact Nat.lt_irrefl _ (h.taken c hc _ (of_decide_eq_true hhold).1).1
      have hnot : s.releases s.made = 0 :=
        List.count_eq_zero.mpr fun hmem => Nat.lt_irrefl _ (h.released _ hmem)
      rw [hwaits, hfiles, hholds, hreleases, hnot]
  · by_cases hn : n = s.made
    · subst hn
      have hposted : (s.create uid true).thread s.made = .posted := Function.update_self _ _ _
      rw [hposted]
      exact ⟨fun _ => Nat.lt_succ_self _, nofun⟩
    · have hsame : (s.create uid true).thread n = s.thread n := Function.update_of_ne hn _ _
      rw [hsame, hreleases]
      exact ⟨fun hthread => Nat.lt_succ_of_lt ((h.reading n).1 hthread), (h.reading n).2⟩
  · refine usedWell_append h.used fun p hp => ?_
    rcases hp with hp | hp <;> cases hp
  · have hlt := Nat.lt_of_lt_of_le hn (h.before c hc).1
    rw [huid n hlt] at hx
    rw [hwaiting n hlt]
    exact h.past c hc hpc n hn hx
  · have hlt := Nat.lt_of_lt_of_le hn (h.before c hc).1
    rw [huid n hlt] at hx
    rw [hreleases]
    exact h.returned c hc hpc n hn hx

/-- Filing a native port. -/
theorem Inv.putNativePort (h : Inv s) {c : ConnectCall} (hi : s.connecting[i]? = some c)
    (hpc : c.pc = .putNativePort) (hfree : s.nativePortMap (s.uidOf c.n) = none) :
    Inv { s with
      nativePortMap := Function.update s.nativePortMap (s.uidOf c.n) (some c.n)
      connecting := s.connecting.set i { c with pc := .putPort } } := by
  have hmem := List.mem_of_getElem? hi
  have hwaits : ∀ n, (s.connecting.set i { c with pc := .putPort }).countP (fun d => Waits n d) +
      (if c.n = n then 1 else 0) = s.waiting n := by
    intro n
    have hcount := countP_set_add (p := fun d => Waits n d)
      (b := { c with pc := ConnectAt.putPort }) hi
    simpa [Waits, hpc, waiting] using hcount
  have hfiled : ∀ n, (if Function.update s.nativePortMap (s.uidOf c.n) (some c.n) (s.uidOf n) =
      some n then 1 else 0) = s.filed n + if c.n = n then 1 else 0 := by
    intro n
    unfold NativeSerialPorts.filed
    by_cases hn : c.n = n
    · subst hn
      simp [hfree]
    · by_cases hu : s.uidOf n = s.uidOf c.n
      · simp [hu, hfree, hn]
      · simp [hu, hn]
  refine ⟨h.pointer, h.created, fun d hd => ?_, fun x n hn => ?_, h.before, h.taken, h.released,
    fun n hn => ?_, h.reading, h.used, fun d hd hd' n hn hx => ?_, h.returned⟩
  · rcases mem_set_cases hd with hd | rfl
    · exact h.connecting d hd
    · exact h.connecting c hmem
  · by_cases hx : x = s.uidOf c.n
    · subst hx
      simp only [Function.update_self, Option.some.injEq] at hn
      subst hn
      exact ⟨h.connecting c hmem, rfl⟩
    · simp only [Function.update_of_ne hx] at hn
      exact h.filed x n hn
  · have hplace := h.place n hn
    have hw := hwaits n
    have hf := hfiled n
    simp only [waiting, NativeSerialPorts.filed, held, releases] at hplace hw hf ⊢
    omega
  · obtain ⟨hzero, hother⟩ := h.past d hd hd' n hn hx
    have hw := hwaits n
    have hne : c.n ≠ n := by
      rintro rfl
      rw [if_pos rfl] at hw
      omega
    rw [if_neg hne, Nat.add_zero] at hw
    refine ⟨hw.trans hzero, ?_⟩
    by_cases hu : d.uid = s.uidOf c.n
    · simpa [hu] using hne
    · simpa [hu] using hother

/-- The rest of `connect` is no matter. -/
theorem Inv.connect_quiet (h : Inv s) {c : ConnectCall} (hi : s.connecting[i]? = some c)
    (hpc : c.pc ≠ .putNativePort) (pc : ConnectAt) (hpc' : pc ≠ .putNativePort)
    (portMap readThreadMap : String → Option Nat) :
    Inv { s with
      portMap := portMap
      readThreadMap := readThreadMap
      connecting := s.connecting.set i { c with pc := pc } } := by
  have hwaits : ∀ n, (s.connecting.set i { c with pc := pc }).countP (fun d => Waits n d) =
      s.waiting n := by
    intro n
    have hcount := countP_set_add (p := fun d => Waits n d) (b := { c with pc := pc }) hi
    simpa [Waits, hpc, hpc', waiting] using hcount
  refine ⟨h.pointer, h.created, fun d hd => ?_, h.filed, h.before, h.taken, h.released,
    fun n hn => ?_, h.reading, h.used, fun d hd hd' n hn hx => ?_, h.returned⟩
  · rcases mem_set_cases hd with hd | rfl
    · exact h.connecting d hd
    · exact h.connecting c (List.mem_of_getElem? hi)
  · have hplace := h.place n hn
    have hw := hwaits n
    simp only [waiting, NativeSerialPorts.filed, held, releases] at hplace hw ⊢
    omega
  · obtain ⟨hzero, hother⟩ := h.past d hd hd' n hn hx
    exact ⟨(hwaits n).trans hzero, hother⟩

/-! ## The steps of `close` -/

/-- A call of `close` begins. -/
theorem Inv.beginClose (h : Inv s) (uid : String) {caller : Option Nat}
    (hcaller : ∀ m, caller = some m → m < s.made) : Inv (s.beginClose uid caller) := by
  have hheld : ∀ n, (s.beginClose uid caller).held n = s.held n := by
    intro n
    simp [held, NativeSerialPorts.beginClose, Holds]
  refine ⟨h.pointer, h.created, h.connecting, h.filed, fun c hc => ?_, fun c hc n hn => ?_,
    h.released, fun n hn => ?_, h.reading, h.used, fun c hc hpc => ?_, fun c hc hpc => ?_⟩
  · rcases List.mem_append.mp hc with hc | hc
    · exact h.before c hc
    · rw [List.mem_singleton.mp hc]
      exact ⟨Nat.le_refl _, hcaller⟩
  · rcases List.mem_append.mp hc with hc | hc
    · exact h.taken c hc n hn
    · rw [List.mem_singleton.mp hc] at hn
      cases hn
  · have hplace := h.place n hn
    rw [← hheld n] at hplace
    exact hplace
  · rcases List.mem_append.mp hc with hc | hc
    · exact h.past c hc hpc
    · rw [List.mem_singleton.mp hc] at hpc
      exact absurd rfl hpc
  · rcases List.mem_append.mp hc with hc | hc
    · exact h.returned c hc hpc
    · rw [List.mem_singleton.mp hc] at hpc
      cases hpc

/-- A call of `close` takes the native port out. -/
theorem Inv.removeNativePort (h : Inv s) {c : CloseCall} (hi : s.closing[i]? = some c)
    (hpc : c.pc = .removeNativePort) (hwait : ∀ d ∈ s.connecting, d.pc = .putNativePort →
      s.uidOf d.n = c.uid → c.before ≤ d.n) :
    Inv { s with
      nativePortMap := Function.update s.nativePortMap c.uid none
      closing := s.closing.set i
        { c with nativePort := s.nativePortMap c.uid, pc := .removePort } } := by
  have hmem := List.mem_of_getElem? hi
  have hheld : ∀ n, (s.closing.set i { c with
      nativePort := s.nativePortMap c.uid, pc := .removePort }).countP (fun d => Holds n d) =
      s.held n + if s.nativePortMap c.uid = some n then 1 else 0 := by
    intro n
    have hcount := countP_set_add (p := fun d => Holds n d)
      (b := { c with nativePort := s.nativePortMap c.uid, pc := CloseAt.removePort }) hi
    simpa [Holds, hpc, held] using hcount
  have hfiled : ∀ n, (if Function.update s.nativePortMap c.uid none (s.uidOf n) = some n
      then 1 else 0) + (if s.nativePortMap c.uid = some n then 1 else 0) = s.filed n := by
    intro n
    unfold NativeSerialPorts.filed
    by_cases hu : s.uidOf n = c.uid
    · simp [hu]
    · have hnot : s.nativePortMap c.uid ≠ some n := fun hsome => hu (h.filed _ n hsome).2
      simp [hu, hnot]
  refine ⟨h.pointer, h.created, h.connecting, fun x n hn => ?_, fun d hd => ?_,
    fun d hd n hn => ?_, h.released, fun n hn => ?_, h.reading, h.used,
    fun d hd hd' n hn hx => ?_, fun d hd hd' => ?_⟩
  · by_cases hx : x = c.uid
    · subst hx
      simp at hn
    · simp only [Function.update_of_ne hx] at hn
      exact h.filed x n hn
  · rcases mem_set_cases hd with hd | rfl
    · exact h.before d hd
    · exact h.before c hmem
  · rcases mem_set_cases hd with hd | rfl
    · exact h.taken d hd n hn
    · exact h.filed _ n hn
  · have hplace := h.place n hn
    have hh := hheld n
    have hf := hfiled n
    simp only [waiting, NativeSerialPorts.filed, held, releases] at hplace hh hf ⊢
    omega
  · have hnone : ∀ x, Function.update s.nativePortMap c.uid none x = some n →
        s.nativePortMap x = some n := by
      intro x hsome
      by_cases hxc : x = c.uid
      · subst hxc
        simp at hsome
      · rwa [Function.update_of_ne hxc] at hsome
    rcases mem_set_cases hd with hd | rfl
    · obtain ⟨hzero, hother⟩ := h.past d hd hd' n hn hx
      exact ⟨hzero, fun hsome => hother (hnone _ hsome)⟩
    · refine ⟨?_, by simp⟩
      -- what waits was made after the call
      refine List.countP_eq_zero.mpr fun e he hwaits => ?_
      obtain ⟨rfl, hput⟩ := of_decide_eq_true hwaits
      exact Nat.not_le.mpr hn (hwait e he hput hx)
  · rcases mem_set_cases hd with hd | rfl
    · exact h.returned d hd hd'
    · cases hd'

/-- The native port is released. -/
theorem Inv.release (h : Inv s) {c : CloseCall} (hi : s.closing[i]? = some c)
    (hpc : c.pc = .release) (hread : ∀ n ∈ c.nativePort, s.thread n ≠ .hasRead) :
    Inv { s with
      natives := s.natives ++ (c.nativePort.map fun n => .release (s.pointer n)).toList
      closing := s.closing.set i { c with pc := .closePort } } := by
  have hmem := List.mem_of_getElem? hi
  have hheld : ∀ n, (s.closing.set i { c with pc := .closePort }).countP (fun d => Holds n d) +
      (if c.nativePort = some n then 1 else 0) = s.held n := by
    intro n
    have hcount := countP_set_add (p := fun d => Holds n d)
      (b := { c with pc := CloseAt.closePort }) hi
    simpa [Holds, hpc, held] using hcount
  have hlog : s.natives ++ (c.nativePort.map fun n => NativeCall.release (s.pointer n)).toList =
      s.natives ++ (c.nativePort.map fun n => NativeCall.release (n + 1)).toList := by
    cases hn : c.nativePort with
    | none => rfl
    | some n =>
      have hpointer := h.pointer n (h.taken c hmem n hn).1
      simp [hpointer]
  have hreleases : ∀ n, (s.natives ++
      (c.nativePort.map fun n => NativeCall.release (s.pointer n)).toList).count (.release (n + 1)) =
      s.releases n + if c.nativePort = some n then 1 else 0 := by
    intro n
    rw [hlog, List.count_append]
    cases hn : c.nativePort with
    | none => simp [releases]
    | some m =>
      by_cases hmn : m = n
      · subst hmn
        simp [releases]
      · simp [releases, hmn]
  have hholds : ∀ n, c.nativePort = some n → s.releases n = 0 := by
    intro n hn
    have hplace := h.place n (h.taken c hmem n hn).1
    have hone := hheld n
    rw [if_pos hn] at hone
    omega
  refine ⟨h.pointer, fun n hn => List.mem_append_left _ (h.created n hn), h.connecting, h.filed,
    fun d hd => ?_, fun d hd n hn => ?_, fun n hn => ?_, fun n hn => ?_,
    fun n => ⟨(h.reading n).1, fun hn => ?_⟩, ?_, fun d hd hd' n hn hx => ?_,
    fun d hd hd' n hn hx => ?_⟩
  · rcases mem_set_cases hd with hd | rfl
    · exact h.before d hd
    · exact h.before c hmem
  · rcases mem_set_cases hd with hd | rfl
    · exact h.taken d hd n hn
    · exact h.taken c hmem n hn
  · rw [hlog] at hn
    rcases List.mem_append.mp hn with hn | hn
    · exact h.released n hn
    · cases hport : c.nativePort with
      | none => simp [hport] at hn
      | some m =>
        obtain rfl : n = m := by simpa [hport] using hn
        exact (h.taken c hmem n hport).1
  · have hplace := h.place n hn
    have hh := hheld n
    have hr := hreleases n
    simp only [waiting, NativeSerialPorts.filed, held, releases] at hplace hh hr ⊢
    omega
  · have hne : c.nativePort ≠ some n := fun hport => hread n hport hn
    refine (hreleases n).trans ?_
    rw [(h.reading n).2 hn, if_neg hne]
  · cases hn : c.nativePort with
    | none => simpa [hn] using h.used
    | some n =>
      have hlt := (h.taken c hmem n hn).1
      have hpointer := h.pointer n hlt
      simp only [Option.map_some, Option.toList_some, hpointer]
      refine usedWell_append h.used fun p hp => ?_
      rcases hp with hp | hp <;> cases hp
      exact ⟨Nat.succ_ne_zero n, h.created n hlt, List.count_eq_zero.mp (hholds n hn)⟩
  · rcases mem_set_cases hd with hd | rfl
    · exact h.past d hd hd' n hn hx
    · refine h.past c hmem ?_ n hn hx
      rw [hpc]
      exact nofun
  · rcases mem_set_cases hd with hd | rfl
    · have hone := h.returned d hd hd' n hn hx
      refine (hreleases n).trans ?_
      rw [hone, if_neg]
      intro hport
      rw [hholds n hport] at hone
      cases hone
    · cases hd'

/-- The other steps of `close` but the last are no matter. -/
theorem Inv.close_quiet (h : Inv s) {c : CloseCall} (hi : s.closing[i]? = some c)
    (d : CloseCall) (huid : d.uid = c.uid) (hcaller : d.caller = c.caller)
    (hbefore : d.before = c.before) (hport : d.nativePort = c.nativePort)
    (hholds : ∀ n, Holds n d ↔ Holds n c) (hpc : c.pc ≠ .removeNativePort)
    (hpc' : d.pc ≠ .returned)
    (portMap readThreadMap : String → Option Nat) (closedPorts : List Nat) :
    Inv { s with
      portMap := portMap
      readThreadMap := readThreadMap
      closedPorts := closedPorts
      closing := s.closing.set i d } := by
  have hmem := List.mem_of_getElem? hi
  have hheld : ∀ n, (s.closing.set i d).countP (fun d => Holds n d) = s.held n := by
    intro n
    have hcount := countP_set_add (p := fun d => Holds n d) (b := d) hi
    simpa [hholds, held] using hcount
  refine ⟨h.pointer, h.created, h.connecting, h.filed, fun e he => ?_, fun e he n hn => ?_,
    h.released, fun n hn => ?_, h.reading, h.used, fun e he he' n hn hx => ?_,
    fun e he he' => ?_⟩
  · rcases mem_set_cases he with he | rfl
    · exact h.before e he
    · rw [hbefore, hcaller]
      exact h.before c hmem
  · rcases mem_set_cases he with he | rfl
    · exact h.taken e he n hn
    · rw [huid]
      exact h.taken c hmem n (hport ▸ hn)
  · have hplace := h.place n hn
    have hh := hheld n
    simp only [waiting, NativeSerialPorts.filed, held, releases] at hplace hh ⊢
    omega
  · rcases mem_set_cases he with he | rfl
    · exact h.past e he he' n hn hx
    · rw [huid] at hx ⊢
      exact h.past c hmem hpc n (hbefore ▸ hn) hx
  · rcases mem_set_cases he with he | rfl
    · exact h.returned e he he'
    · exact absurd he' hpc'

/-- The read threads go on, when what they have read is not read for a released port. -/
theorem Inv.threads (h : Inv s) {thread : Nat → ReadThreadAt} (interrupted : List Nat)
    (hread : ∀ n, (thread n ≠ .ended → n < s.made) ∧ (thread n = .hasRead → s.releases n = 0)) :
    Inv { s with thread := thread, interrupted := interrupted } :=
  ⟨h.pointer, h.created, h.connecting, h.filed, h.before, h.taken, h.released, h.place, hread,
    h.used, h.past, h.returned⟩

/-- A call of `close` returns. -/
theorem Inv.closeReturn (h : Inv s) {c : CloseCall} (hi : s.closing[i]? = some c)
    (hpc : c.pc = .interrupt) (hother : ∀ d ∈ s.closing, ∀ n ∈ d.nativePort, Holds n d →
      d.uid = c.uid → c.before ≤ n) :
    Inv { s with closing := s.closing.set i { c with pc := .returned } } := by
  have hmem := List.mem_of_getElem? hi
  have hheld : ∀ n, (s.closing.set i { c with pc := .returned }).countP (fun d => Holds n d) =
      s.held n := by
    intro n
    have hcount := countP_set_add (p := fun d => Holds n d)
      (b := { c with pc := CloseAt.returned }) hi
    simpa [Holds, hpc, held] using hcount
  have hpast : c.pc ≠ .removeNativePort := by
    rw [hpc]
    exact nofun
  refine ⟨h.pointer, h.created, h.connecting, h.filed, fun e he => ?_, fun e he n hn => ?_,
    h.released, fun n hn => ?_, h.reading, h.used, fun e he he' n hn hx => ?_,
    fun e he he' n hn hx => ?_⟩
  · rcases mem_set_cases he with he | rfl
    · exact h.before e he
    · exact h.before c hmem
  · rcases mem_set_cases he with he | rfl
    · exact h.taken e he n hn
    · exact h.taken c hmem n hn
  · have hplace := h.place n hn
    have hh := hheld n
    simp only [waiting, NativeSerialPorts.filed, held, releases] at hplace hh ⊢
    omega
  · rcases mem_set_cases he with he | rfl
    · exact h.past e he he' n hn hx
    · exact h.past c hmem hpast n hn hx
  · rcases mem_set_cases he with he | rfl
    · exact h.returned e he he' n hn hx
    · -- all other places are excluded
      have hlt : n < s.made := Nat.lt_of_lt_of_le hn (h.before c hmem).1
      obtain ⟨hzero, hmap⟩ := h.past c hmem hpast n hn hx
      have hnone : s.held n = 0 := by
        refine List.countP_eq_zero.mpr fun d hd hholds => ?_
        have hd' := of_decide_eq_true hholds
        have huid := (h.taken d hd n hd'.1).2
        exact Nat.not_le.mpr hn (hother d hd n hd'.1 hd' (huid.symm.trans hx))
      have hunfiled : s.filed n = 0 := by
        unfold NativeSerialPorts.filed
        rw [hx]
        exact if_neg hmap
      have hplace := h.place n hlt
      have hone : s.releases n = 1 := by omega
      exact hone

/-! ## Runs -/

/-- INTERNAL: one thread goes to another place. -/
theorem Inv.thread_update (h : Inv s) {place : ReadThreadAt} (hmade : n < s.made)
    (hplace : place = .hasRead → s.releases n = 0) (m : Nat) :
    (Function.update s.thread n place m ≠ .ended → m < s.made) ∧
      (Function.update s.thread n place m = .hasRead → s.releases m = 0) := by
  by_cases hmn : m = n
  · subst hmn
    rw [Function.update_self]
    exact ⟨fun _ => hmade, hplace⟩
  · rw [Function.update_of_ne hmn]
    exact h.reading m

/-- **One orderly step** of `connect`. -/
theorem inv_connectStep (h : Inv s) {c : ConnectCall} (hi : s.connecting[i]? = some c)
    (hfree : c.pc = .putNativePort → s.nativePortMap (s.uidOf c.n) = none)
    (hs : s.connectStep i c = some t) : Inv t := by
  unfold connectStep at hs
  cases hpc : c.pc with
  | putNativePort =>
    rw [hpc] at hs
    cases hs
    exact h.putNativePort hi hpc (hfree hpc)
  | putPort =>
    rw [hpc] at hs
    cases hs
    exact h.connect_quiet hi (by simp [hpc]) .putThread (by simp) _ _
  | putThread =>
    rw [hpc] at hs
    cases hs
    exact h.connect_quiet hi (by simp [hpc]) .returned (by simp) _ _
  | returned =>
    rw [hpc] at hs
    cases hs

/-- **One orderly step** of `close`. -/
theorem inv_closeStep (h : Inv s) {c : CloseCall} (hi : s.closing[i]? = some c)
    (hg : s.Orderly (.closing i)) (hs : s.closeStep i c = some t) : Inv t := by
  obtain ⟨hwait, hread, hother⟩ := hg c hi
  unfold closeStep at hs
  cases hpc : c.pc with
  | removeNativePort =>
    rw [hpc] at hs
    cases hs
    exact h.removeNativePort hi hpc (hwait hpc)
  | removePort =>
    rw [hpc] at hs
    cases hs
    exact h.close_quiet hi { c with port := s.portMap c.uid, pc := .removeThread } rfl rfl rfl rfl
      (fun n => by simp [Holds, hpc]) (by simp [hpc]) (by simp) _ _ _
  | removeThread =>
    rw [hpc] at hs
    cases hs
    exact h.close_quiet hi { c with thread := s.readThreadMap c.uid, pc := .release } rfl rfl rfl
      rfl (fun n => by simp [Holds, hpc]) (by simp [hpc]) (by simp) _ _ _
  | release =>
    rw [hpc] at hs
    cases hs
    exact h.release hi hpc (hread hpc)
  | closePort =>
    rw [hpc] at hs
    cases hs
    exact h.close_quiet hi { c with pc := .interrupt } rfl rfl rfl rfl
      (fun n => by simp [Holds, hpc]) (by simp [hpc]) (by simp) _ _ _
  | interrupt =>
    rw [hpc] at hs
    cases hs
    refine (h.closeReturn hi hpc (hother hpc)).threads _ ?_
    -- the calling thread goes back to reading
    cases hcaller : c.caller with
    | none => exact h.reading
    | some m =>
      have hmade := (h.before c (List.mem_of_getElem? hi)).2 m hcaller
      exact h.thread_update hmade nofun
  | returned =>
    rw [hpc] at hs
    cases hs

/-- **One orderly step** keeps every native port in one place. -/
theorem inv_step {a : Action} (h : Inv s) (hg : s.Orderly a) (hs : step s a = some t) : Inv t := by
  have hmade : ∀ {n : Nat} {place : ReadThreadAt}, s.thread n = place → place ≠ .ended →
      n < s.made := fun hn hplace => (h.reading _).1 (hn ▸ hplace)
  cases a with
  | create uid created =>
    cases hs
    rw [show created = true from hg]
    exact h.create uid
  | connect i =>
    obtain ⟨c, hi, hstep⟩ := Option.bind_eq_some_iff.mp hs
    exact inv_connectStep h hi (hg c hi) hstep
  | close uid =>
    cases hs
    exact h.beginClose uid nofun
  | closing i =>
    obtain ⟨c, hi, hstep⟩ := Option.bind_eq_some_iff.mp hs
    exact inv_closeStep h hi hg hstep
  | start n =>
    simp only [step, Option.ite_none_right_eq_some, Option.some.injEq] at hs
    obtain ⟨hposted, rfl⟩ := hs
    exact h.threads _ (h.thread_update (hmade hposted nofun) nofun)
  | read n =>
    simp only [step, Option.ite_none_right_eq_some, Option.some.injEq] at hs
    obtain ⟨⟨hreading, -⟩, rfl⟩ := hs
    have hlt := hmade hreading nofun
    refine h.threads _ (h.thread_update hlt fun _ => List.count_eq_zero.mpr ?_)
    have hnot : NativeCall.release (s.pointer n) ∉ s.natives := hg
    rwa [h.pointer n hlt] at hnot
  | write n =>
    simp only [step, Option.ite_none_right_eq_some, Option.some.injEq] at hs
    obtain ⟨hread, rfl⟩ := hs
    have hlt := hmade hread nofun
    have hzero := (h.reading n).2 hread
    have hused : UsedWell (s.natives ++ [.write (s.pointer n)]) := by
      refine usedWell_append h.used fun p hp => ?_
      rcases hp with hp | hp <;> cases hp
      rw [h.pointer n hlt]
      exact ⟨Nat.succ_ne_zero n, h.created n hlt, List.count_eq_zero.mp hzero⟩
    have hreleases : ∀ m, (s.natives ++ [NativeCall.write (s.pointer n)]).count (.release (m + 1)) =
        s.releases m := by
      intro m
      simp [releases, List.count_append]
    have hwritten : Inv { s with natives := s.natives ++ [.write (s.pointer n)] } := by
      refine ⟨h.pointer, fun m hm => List.mem_append_left _ (h.created m hm), h.connecting,
        h.filed, h.before, h.taken, fun m hm => h.released m (by simpa using hm), fun m hm => ?_,
        fun m => ⟨(h.reading m).1, fun hm => (hreleases m).trans ((h.reading m).2 hm)⟩, hused,
        h.past, fun c hc hpc m hm hx => (hreleases m).trans (h.returned c hc hpc m hm hx)⟩
      have hplace := h.place m hm
      have hr := hreleases m
      simp only [waiting, NativeSerialPorts.filed, held, releases] at hplace hr ⊢
      omega
    exact hwritten.threads _ (hwritten.thread_update hlt nofun)
  | readError n =>
    simp only [step, Option.ite_none_right_eq_some, Option.some.injEq] at hs
    obtain ⟨hreading, rfl⟩ := hs
    have hlt := hmade hreading nofun
    have hbegun : Inv (s.beginClose (s.uidOf n) (some n)) :=
      h.beginClose _ fun m hm => Option.some.inj hm ▸ hlt
    exact hbegun.threads _ (hbegun.thread_update hlt nofun)
  | finish n =>
    simp only [step, Option.ite_none_right_eq_some, Option.some.injEq] at hs
    obtain ⟨⟨hreading, -⟩, rfl⟩ := hs
    exact h.threads _ (h.thread_update (hmade hreading nofun) nofun)

/-- **The native code is used well** in every run of orderly steps: it only gets pointers it has
returned and that were not released, and when a call of `close` has returned, every pointer made
for its uid before has been released exactly once.
SOURCE: NativeSerialPort.kt:17-47, UsbSerialManager.kt:120-223 -/
theorem handles_used_well {acts : List Action}
    (hrun : run (restrict step Orderly) empty acts = some s) :
    UsedWell s.natives ∧ ReleasedOnReturn s := by
  have h : Inv s := run_restrict_invariant (fun _ _ _ h hg hs => inv_step h hg hs) inv_empty hrun
  refine ⟨h.used, fun c hc hpc n hn hx _ => ?_⟩
  have hlt : n < s.made := Nat.lt_of_lt_of_le hn (h.before c hc).1
  rw [h.pointer n hlt]
  exact h.returned c hc hpc n hn hx

/-- A device is connected, its thread hands on data, it is closed, and the thread finds its port
closed, closes once more and ends. -/
def closedOnce : List Action :=
  [.create "a" true, .connect 0, .connect 0, .connect 0, .start 0, .read 0, .write 0, .close "a"] ++
    List.replicate 5 (.closing 0) ++ [.readError 0] ++ List.replicate 6 (.closing 1) ++
    [.closing 0, .finish 0]

/-- In this run both calls of `close` return, and the pointer is released once. -/
theorem handles_used_well_once :
    ∃ s, run (restrict step Orderly) empty closedOnce = some s ∧
      s.natives = [.create 1, .write 1, .release 1] ∧ UsedWell s.natives ∧ ReleasedOnReturn s := by
  have hrun : (run (restrict step Orderly) empty closedOnce).any
      (fun s => s.natives = [.create 1, .write 1, .release 1]) = true := by
    decide +kernel
  obtain ⟨s, hs, hnatives⟩ := (Option.any_eq_true _ _).mp hrun
  exact ⟨s, hs, of_decide_eq_true hnatives, handles_used_well hs⟩

/-- A thread has read data, and the device is closed before it writes them; a device is
announced twice, and closed.
SOURCE: NativeSerialPort.kt:30-32, 43-46, UsbSerialManager.kt:166-168 -/
theorem handles_misused :
    (¬∀ acts s, run step empty acts = some s → UsedWell s.natives) ∧
      ¬∀ acts s, run step empty acts = some s → ReleasedOnReturn s := by
  constructor
  · intro h
    have hrun : (run step empty ([.create "a" true, .connect 0, .connect 0, .connect 0, .start 0,
        .read 0, .close "a"] ++ List.replicate 4 (.closing 0) ++ [.write 0])).any
        (fun s => s.natives = [.create 1, .release 1, .write 1]) = true := by
      decide +kernel
    obtain ⟨s, hs, hnatives⟩ := (Option.any_eq_true _ _).mp hrun
    have hused := h _ s hs
    rw [of_decide_eq_true hnatives] at hused
    exact (hused [.create 1, .release 1] (.write 1) [] rfl 1 (.inl rfl)).2.2 (by decide)
  · intro h
    have hrun : (run step empty ([.create "a" true, .connect 0, .connect 0, .connect 0,
        .create "a" true, .connect 1, .connect 1, .connect 1, .close "a"] ++
        List.replicate 6 (.closing 0))).any (fun s => s.natives = [.create 1, .create 2, .release 2] ∧
          s.pointer 0 = 1 ∧ ∃ c ∈ s.closing, c.pc = .returned ∧ 0 < c.before ∧
            s.uidOf 0 = c.uid) = true := by
      decide +kernel
    obtain ⟨s, hs, hend⟩ := (Option.any_eq_true _ _).mp hrun
    obtain ⟨hnatives, hpointer, c, hc, hpc, hbefore, huid⟩ := of_decide_eq_true hend
    have hreleased := h _ s hs c hc hpc 0 hbefore huid (by rw [hpointer]; exact Nat.one_ne_zero)
    rw [hnatives, hpointer] at hreleased
    exact absurd hreleased (by decide)

end NativeSerialPorts

end Cream.Model
