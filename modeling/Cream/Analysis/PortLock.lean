import Cream.Library.Transition
import Cream.Model.MoonrakerPortLock
import Mathlib.Data.List.Count
import Mathlib.Tactic.Linarith

/-!
# Mutual exclusion of the Moonraker port lock

Looking at the lock file and deleting it are two steps. Between them the file may be
replaced, and a file that is missing when its age is read counts as older than anything.
So a call may delete a lock that another call has just taken, after which two actions run at
once. The forced path after the deadline does the same on purpose.

The lock does exclude while the steps are **timely**: a delete after a stale check finds the
file the check looked at, or none; the forced path finds a file that has gone stale, or none,
and gets its own; and time does not pass the threshold between the making of a lock file
and its release. The invariant `Guarded` then says that a call between the two owns the file
that is there. Independently of that, every call starts its action exactly once, and is done
a bounded number of its own operations after its deadline.
-/

set_option autoImplicit false

namespace Cream.Model.PortLock

open Cream.Library.Transition

variable {s t : PortLock} {p : Nat}

/-! ## Timely steps -/

/-- The operations between making the lock file and deleting it. -/
def InSection (pc : LockPc) : Prop := pc = .enter ∨ pc = .action ∨ pc = .release

instance (pc : LockPc) : Decidable (InSection pc) := inferInstanceAs (Decidable (_ ∨ _))

/-- The steps under which the lock excludes. -/
def Timely (s : PortLock) : Event → Prop
  | .tick d => ∀ file ∈ s.lock, ∀ p ∈ file.creator, InSection (s.calls p).pc →
      s.clock + d - file.modified ≤ THRESHOLD
  | .call _ => True
  | .op p fails =>
    match (s.calls p).pc with
    | .staleDelete modified => ∀ file ∈ s.lock, file.modified = modified
    | .forcedDelete => ∀ file ∈ s.lock, THRESHOLD < s.clock - file.modified
    | .forcedCreate => s.lock = none ∧ fails = false
    | _ => True

instance (s : PortLock) (e : Event) : Decidable (s.Timely e) := by
  unfold Timely
  cases e with
  | tick d => infer_instance
  | call p => infer_instance
  | op p fails =>
    dsimp only
    cases (s.calls p).pc <;> infer_instance

/-! ## The invariant -/

/-- What is known of a call: in its section it owns the lock file, which is not stale, and a
stale check has not looked into the future. -/
structure CallOk (s : PortLock) (p : Nat) (c : LockCall) : Prop where
  owns : InSection c.pc → c.acquired = true ∧
    ∃ file ∈ s.lock, file.creator = some p ∧ s.clock - file.modified ≤ THRESHOLD
  looking : ∀ now, c.pc = .modified now → now ≤ s.clock
  looked : ∀ modified, c.pc = .staleDelete modified → THRESHOLD < s.clock - modified

/-- The invariant of timely runs. -/
structure Guarded (s : PortLock) : Prop where
  calls : ∀ p, CallOk s p (s.calls p)
  deletions : ∀ d ∈ s.deletions, d.file.creator = some d.call ∨
    THRESHOLD < d.time - d.file.modified

/-- At an operation outside the section nothing is owned. -/
theorem CallOk.of_pc {c : LockCall} (hin : ¬InSection c.pc)
    (hlooking : ∀ now, c.pc = .modified now → now ≤ s.clock)
    (hlooked : ∀ modified, c.pc = .staleDelete modified → THRESHOLD < s.clock - modified) :
    CallOk s p c :=
  ⟨fun h => absurd h hin, hlooking, hlooked⟩

/-- Two calls in their sections are one. -/
theorem Guarded.unique (h : Guarded s) {q : Nat} (hp : InSection (s.calls p).pc)
    (hq : InSection (s.calls q).pc) : p = q := by
  obtain ⟨-, file, hfile, hcreator, -⟩ := (h.calls p).owns hp
  obtain ⟨-, file', hfile', hcreator', -⟩ := (h.calls q).owns hq
  cases Option.some.inj (hfile.symm.trans hfile')
  exact Option.some.inj (hcreator.symm.trans hcreator')

/-- A step that assigns the variables of one call. -/
theorem Guarded.modify (h : Guarded s) {f : LockCall → LockCall}
    (hok : CallOk s p (f (s.calls p))) : Guarded (s.modify p f) := by
  refine ⟨fun q => ?_, h.deletions⟩
  have hcall : CallOk s q ((s.modify p f).calls q) := by
    by_cases hq : q = p
    · subst hq
      rw [modify_calls, Function.update_self]
      exact hok
    · rw [modify_calls, Function.update_of_ne hq]
      exact h.calls q
  exact ⟨hcall.owns, hcall.looking, hcall.looked⟩

/-- A step that goes on outside the section, where nothing was looked at. -/
theorem Guarded.goto (h : Guarded s) {pc : LockPc} (hin : ¬InSection pc)
    (hlooking : ∀ now, pc ≠ .modified now) (hlooked : ∀ modified, pc ≠ .staleDelete modified) :
    Guarded (s.goto p pc) :=
  h.modify (.of_pc hin (fun now hpc => absurd hpc (hlooking now))
    fun modified hpc => absurd hpc (hlooked modified))

/-- A delete that finds its call's own file, or one that has gone stale, while no other call
is in its section. -/
theorem Guarded.delete (h : Guarded s)
    (hfile : ∀ file ∈ s.lock, file.creator = some p ∨ THRESHOLD < s.clock - file.modified)
    (hothers : ∀ q, q ≠ p → ¬InSection (s.calls q).pc) {pc : LockPc} (hin : ¬InSection pc)
    (hlooking : ∀ now, pc ≠ .modified now) (hlooked : ∀ modified, pc ≠ .staleDelete modified) :
    Guarded ((s.delete p).goto p pc) := by
  unfold PortLock.delete
  cases hlock : s.lock with
  | none => exact h.goto hin hlooking hlooked
  | some file =>
    refine ⟨fun q => ?_, fun d hd => ?_⟩
    · by_cases hq : q = p
      · subst hq
        rw [goto_calls, Function.update_self]
        exact .of_pc hin (fun now hpc => absurd hpc (hlooking now))
          fun modified hpc => absurd hpc (hlooked modified)
      · rw [goto_calls, Function.update_of_ne hq]
        exact ⟨fun hsection => absurd hsection (hothers q hq), (h.calls q).looking,
          (h.calls q).looked⟩
    · rw [goto_deletions, List.mem_append, List.mem_singleton] at hd
      rcases hd with hd | rfl
      · exact h.deletions d hd
      · exact hfile file hlock

/-- Making the lock file, when there is none. -/
theorem Guarded.created (h : Guarded s) (hlock : s.lock = none) {f : LockCall → LockCall}
    (hpc : (f (s.calls p)).pc = .enter) (hacquired : (f (s.calls p)).acquired = true) :
    Guarded ({ s with lock := some { creator := some p, modified := s.clock } }.modify p f) := by
  have hfree : ∀ q, ¬InSection (s.calls q).pc := by
    intro q hq
    obtain ⟨-, file, hfile, -⟩ := (h.calls q).owns hq
    rw [hlock] at hfile
    cases hfile
  refine ⟨fun q => ?_, h.deletions⟩
  by_cases hq : q = p
  · subst hq
    rw [modify_calls, Function.update_self]
    refine ⟨fun _ => ⟨hacquired, _, rfl, rfl, ?_⟩, fun now hnow => ?_, fun modified hmod => ?_⟩
    · show s.clock - s.clock ≤ THRESHOLD
      rw [Int.sub_self]
      decide
    · cases hpc.symm.trans hnow
    · cases hpc.symm.trans hmod
  · rw [modify_calls, Function.update_of_ne hq]
    exact ⟨fun hsection => absurd hsection (hfree q), (h.calls q).looking, (h.calls q).looked⟩

/-- No call is in its section while the lock file is stale. -/
theorem Guarded.free_of_stale (h : Guarded s)
    (hstale : ∀ file ∈ s.lock, THRESHOLD < s.clock - file.modified) (q : Nat) :
    ¬InSection (s.calls q).pc := by
  intro hq
  obtain ⟨-, file, hfile, -, hage⟩ := (h.calls q).owns hq
  exact absurd (hstale file hfile) (not_lt.mpr hage)

/-- **One timely operation.**
SOURCE: KlipperApp.kt:110-139 -/
theorem Guarded.advance (h : Guarded s) {fails : Bool} (hg : s.Timely (.op p fails))
    (hs : s.advance p fails = some t) : Guarded t := by
  have hown := h.calls p
  unfold Timely at hg
  unfold PortLock.advance at hs
  cases hpc : (s.calls p).pc with
  | outside => simp [hpc] at hs
  | done => simp [hpc] at hs
  | test =>
    simp only [hpc, Option.some.injEq] at hs
    subst hs
    split <;> exact h.goto (by decide) nofun nofun
  | create =>
    have hnow : Guarded (s.goto p .now) := h.goto (by decide) nofun nofun
    simp only [hpc] at hs
    unfold createNewFile at hs
    cases fails with
    | true =>
      cases hs
      exact hnow
    | false =>
      cases hlock : s.lock with
      | none =>
        simp only [hlock, Bool.false_eq_true, if_false, Option.some.injEq] at hs
        subst hs
        exact h.created hlock rfl rfl
      | some file =>
        simp only [hlock, Bool.false_eq_true, if_false, Option.some.injEq] at hs
        subst hs
        exact hnow
  | now =>
    simp only [hpc, Option.some.injEq] at hs
    subst hs
    refine h.modify (.of_pc (by simp [InSection]) (fun now hnow => ?_) nofun)
    cases hnow
    exact le_rfl
  | modified now =>
    have hle := hown.looking now hpc
    simp only [hpc] at hs
    split at hs
    · next hstale =>
      cases hs
      refine h.modify (.of_pc (by simp [InSection]) nofun fun modified hmod => ?_)
      cases hmod
      linarith
    · cases hs
      exact h.goto (by decide) nofun nofun
  | staleDelete modified =>
    simp only [hpc, Option.some.injEq] at hs hg
    subst hs
    have hstale : ∀ file ∈ s.lock, THRESHOLD < s.clock - file.modified := by
      intro file hfile
      rw [hg file hfile]
      exact hown.looked modified hpc
    split
    · exact h.goto (by decide) nofun nofun
    · exact h.delete (fun file hfile => .inr (hstale file hfile))
        (fun q _ => h.free_of_stale hstale q) (by decide) nofun nofun
  | sleep =>
    simp only [hpc, Option.some.injEq] at hs
    subst hs
    split <;> exact h.goto (by decide) nofun nofun
  | forcedDelete =>
    simp only [hpc, Option.some.injEq] at hs hg
    subst hs
    split
    · exact h.goto (by decide) nofun nofun
    · exact h.delete (fun file hfile => .inr (hg file hfile))
        (fun q _ => h.free_of_stale hg q) (by decide) nofun nofun
  | forcedCreate =>
    simp only [hpc] at hs hg
    obtain ⟨hlock, rfl⟩ := hg
    unfold createNewFile at hs
    simp only [hlock, Bool.false_eq_true, if_false, Option.some.injEq] at hs
    subst hs
    exact h.created hlock rfl rfl
  | enter =>
    simp only [hpc, Option.some.injEq] at hs
    subst hs
    exact h.modify ⟨fun _ => hown.owns (.inl hpc), nofun, nofun⟩
  | action =>
    have howns := hown.owns (.inr (.inl hpc))
    simp only [hpc, howns.1, if_true, Option.some.injEq] at hs
    subst hs
    exact h.modify ⟨fun _ => howns, nofun, nofun⟩
  | release =>
    have hin : InSection (s.calls p).pc := .inr (.inr hpc)
    simp only [hpc, Option.some.injEq] at hs
    subst hs
    split
    · exact h.goto (by decide) nofun nofun
    · refine h.delete (fun file hfile => .inl ?_)
        (fun q hne hq => hne (h.unique hq hin)) (by decide) nofun nofun
      obtain ⟨-, file', hfile', hcreator, -⟩ := hown.owns hin
      cases Option.some.inj (hfile.symm.trans hfile')
      exact hcreator

/-- **One timely step.** -/
theorem Guarded.step (h : Guarded s) {e : Event} (hg : s.Timely e)
    (hs : PortLock.step s e = some t) : Guarded t := by
  cases e with
  | tick d =>
    cases hs
    refine ⟨fun p => ⟨fun hin => ?_, fun now hnow => ?_, fun modified hmod => ?_⟩, h.deletions⟩
    · obtain ⟨hacquired, file, hfile, hcreator, -⟩ := (h.calls p).owns hin
      exact ⟨hacquired, file, hfile, hcreator, hg file hfile p hcreator hin⟩
    · have := (h.calls p).looking now hnow
      show now ≤ s.clock + d
      omega
    · have := (h.calls p).looked modified hmod
      show THRESHOLD < s.clock + d - modified
      omega
  | call p =>
    unfold PortLock.step at hs
    simp only [Option.ite_none_right_eq_some, Option.some.injEq] at hs
    obtain ⟨-, rfl⟩ := hs
    exact h.modify (.of_pc (by simp [InSection]) nofun nofun)
  | op p fails => exact h.advance hg hs

/-- Before the first call. -/
theorem guarded_initial (clock : Int) (left : Option Int) : Guarded (initial clock left) :=
  ⟨fun _ => .of_pc (by show ¬InSection .outside; decide) nofun nofun,
    fun _ hd => (List.not_mem_nil hd).elim⟩

/-! ## Every call runs its action once -/

/-- How often the action has been started when a call is at an operation. -/
def started : LockPc → Nat
  | .action | .release | .done => 1
  | _ => 0

/-- How many operations are left, at most, to a call whose deadline has passed. -/
def rank : LockPc → Nat
  | .outside => 12
  | .create => 11
  | .now => 10
  | .modified _ => 9
  | .staleDelete _ => 8
  | .sleep => 7
  | .test => 6
  | .forcedDelete => 5
  | .forcedCreate => 4
  | .enter => 3
  | .action => 2
  | .release => 1
  | .done => 0

/-- The event is an operation of the call. -/
def isOpOf (p : Nat) : Event → Bool
  | .op q _ => q = p
  | _ => false

/-- Creating the file is no call. -/
@[simp] theorem calls_createNewFile (q : Nat) : (s.createNewFile q).1.calls = s.calls := by
  unfold createNewFile
  cases s.lock <;> rfl

/-- Nor is deleting it. -/
@[simp] theorem calls_delete (q : Nat) : (s.delete q).calls = s.calls := by
  unfold PortLock.delete
  cases s.lock <;> rfl

/-- What one operation of a call does to the calls: the others do not move, the action is
started by the step that enters it and by no other, and after the deadline every operation
leads on. -/
structure Moved (s : PortLock) (p : Nat) (t : PortLock) : Prop where
  others : ∀ q, q ≠ p → t.calls q = s.calls q
  deadline : (t.calls p).deadline = (s.calls p).deadline
  runs : (t.calls p).runs + started (s.calls p).pc = (s.calls p).runs + started (t.calls p).pc
  outside : (t.calls p).pc ≠ .outside
  rank : (s.calls p).deadline ≤ s.clock → rank (t.calls p).pc < rank (s.calls p).pc
  clock : t.clock = s.clock

/-- An operation changes the file and then assigns the variables of its own call. -/
theorem Moved.assign {u : PortLock} (f : LockCall → LockCall) (hcalls : u.calls = s.calls)
    (hclock : u.clock = s.clock) (hdeadline : (f (s.calls p)).deadline = (s.calls p).deadline)
    (hruns : (f (s.calls p)).runs + started (s.calls p).pc =
      (s.calls p).runs + started (f (s.calls p)).pc)
    (houtside : (f (s.calls p)).pc ≠ .outside)
    (hrank : (s.calls p).deadline ≤ s.clock →
      PortLock.rank (f (s.calls p)).pc < PortLock.rank (s.calls p).pc) :
    Moved s p (u.modify p f) := by
  have hself : (u.modify p f).calls p = f (s.calls p) := by
    rw [modify_calls, Function.update_self, hcalls]
  refine ⟨fun q hq => ?_, ?_, ?_, ?_, ?_, hclock⟩
  · rw [modify_calls, Function.update_of_ne hq, hcalls]
  all_goals rw [hself]; assumption

/-- Creating the file takes no time. -/
@[simp] theorem clock_createNewFile (q : Nat) : (s.createNewFile q).1.clock = s.clock := by
  unfold createNewFile
  cases s.lock <;> rfl

/-- Nor does deleting it. -/
@[simp] theorem clock_delete (q : Nat) : (s.delete q).clock = s.clock := by
  unfold PortLock.delete
  cases s.lock <;> rfl

/-- **One operation of a call.**
SOURCE: KlipperApp.kt:110-139 -/
theorem advance_moved {fails : Bool} (hs : s.advance p fails = some t) : Moved s p t := by
  -- going on without a choice
  have hgoto : ∀ (u : PortLock) (pc : LockPc), u.calls = s.calls → u.clock = s.clock →
      started pc = started (s.calls p).pc → pc ≠ .outside →
      ((s.calls p).deadline ≤ s.clock → rank pc < rank (s.calls p).pc) →
        Moved s p (u.goto p pc) :=
    fun u pc hcalls hclock hstarted houtside hrank =>
      .assign _ hcalls hclock rfl (by rw [hstarted]) houtside hrank
  have hdeleted : ∀ pc, started pc = started (s.calls p).pc → pc ≠ .outside →
      rank pc < rank (s.calls p).pc →
        Moved s p ((if fails then s else s.delete p).goto p pc) := by
    intro pc hstarted houtside hrank
    refine hgoto _ pc ?_ ?_ hstarted houtside fun _ => hrank
    · split
      · rfl
      · exact calls_delete p
    · split
      · rfl
      · exact clock_delete p
  unfold PortLock.advance at hs
  cases hpc : (s.calls p).pc with
  | outside => simp [hpc] at hs
  | done => simp [hpc] at hs
  | test =>
    simp only [hpc, Option.some.injEq] at hs
    subst hs
    refine hgoto s _ rfl rfl ?_ ?_ fun hlate => ?_
    · rw [hpc]
      split <;> rfl
    · split <;> decide
    · rw [if_neg (not_lt.mpr hlate), hpc]
      decide
  | create =>
    simp only [hpc] at hs
    cases fails with
    | true =>
      cases hs
      exact hgoto s _ rfl rfl (by rw [hpc]; rfl) (by decide) fun _ => by rw [hpc]; decide
    | false =>
      simp only [Bool.false_eq_true, if_false] at hs
      have hcalls := calls_createNewFile (s := s) p
      have hclock := clock_createNewFile (s := s) p
      rcases hcreate : s.createNewFile p with ⟨u, created⟩
      rw [hcreate] at hs hcalls hclock
      cases created with
      | true =>
        cases hs
        exact .assign _ hcalls hclock rfl (by rw [hpc]; rfl) nofun fun _ => by rw [hpc]; simp [rank]
      | false =>
        cases hs
        exact hgoto u _ hcalls hclock (by rw [hpc]; rfl) (by decide) fun _ => by rw [hpc]; decide
  | now =>
    simp only [hpc, Option.some.injEq] at hs
    subst hs
    exact hgoto s _ rfl rfl (by rw [hpc]; rfl) nofun fun _ => by rw [hpc]; simp [rank]
  | modified now =>
    simp only [hpc] at hs
    split at hs
    · cases hs
      exact hgoto s _ rfl rfl (by rw [hpc]; rfl) nofun fun _ => by rw [hpc]; simp [rank]
    · cases hs
      exact hgoto s _ rfl rfl (by rw [hpc]; rfl) nofun fun _ => by rw [hpc]; simp [rank]
  | staleDelete modified =>
    simp only [hpc, Option.some.injEq] at hs
    subst hs
    exact hdeleted _ (by rw [hpc]; rfl) (by decide) (by rw [hpc]; simp [rank])
  | sleep =>
    simp only [hpc, Option.some.injEq] at hs
    subst hs
    refine hgoto s _ rfl rfl ?_ ?_ fun _ => ?_
    · rw [hpc]
      split <;> rfl
    · split <;> decide
    · rw [hpc]
      split <;> decide
  | forcedDelete =>
    simp only [hpc, Option.some.injEq] at hs
    subst hs
    exact hdeleted _ (by rw [hpc]; rfl) (by decide) (by rw [hpc]; decide)
  | forcedCreate =>
    simp only [hpc] at hs
    cases fails with
    | true =>
      cases hs
      exact hgoto s _ rfl rfl (by rw [hpc]; rfl) (by decide) fun _ => by rw [hpc]; decide
    | false =>
      cases hs
      exact .assign _ (calls_createNewFile p) (clock_createNewFile p) rfl (by rw [hpc]; rfl)
        nofun fun _ => by rw [hpc]; simp [rank]
  | enter =>
    simp only [hpc, Option.some.injEq] at hs
    subst hs
    exact .assign _ rfl rfl rfl (by rw [hpc]; rfl) nofun fun _ => by rw [hpc]; simp [rank]
  | action =>
    simp only [hpc, Option.some.injEq] at hs
    subst hs
    refine hgoto s _ rfl rfl ?_ ?_ fun _ => ?_
    · rw [hpc]
      split <;> rfl
    · split <;> decide
    · rw [hpc]
      split <;> decide
  | release =>
    simp only [hpc, Option.some.injEq] at hs
    subst hs
    exact hdeleted _ (by rw [hpc]; rfl) (by decide) (by rw [hpc]; decide)

/-- A call that is not over can go on, whatever the other calls have done. -/
theorem advance_possible (houtside : (s.calls p).pc ≠ .outside) (hdone : (s.calls p).pc ≠ .done)
    (fails : Bool) : (s.advance p fails).isSome := by
  unfold PortLock.advance
  cases hpc : (s.calls p).pc with
  | outside => exact absurd hpc houtside
  | done => exact absurd hpc hdone
  | create =>
    cases fails with
    | true => rfl
    | false =>
      unfold createNewFile
      cases s.lock <;> rfl
  | modified now => dsimp only; split <;> rfl
  | forcedCreate => cases fails <;> rfl
  | _ => rfl

/-- The number of times each call has started its action is read off its next operation. -/
def Once (s : PortLock) : Prop := ∀ p, (s.calls p).runs = started (s.calls p).pc

/-- **Every step** keeps each block to one run. -/
theorem Once.step (h : Once s) {e : Event} (hs : PortLock.step s e = some t) : Once t := by
  intro q
  cases e with
  | tick d =>
    cases hs
    exact h q
  | call p =>
    unfold PortLock.step at hs
    simp only [Option.ite_none_right_eq_some, Option.some.injEq] at hs
    obtain ⟨hpc, rfl⟩ := hs
    by_cases hq : q = p
    · subst hq
      rw [modify_calls, Function.update_self]
      have hruns := h q
      rw [hpc] at hruns
      exact hruns
    · rw [modify_calls, Function.update_of_ne hq]
      exact h q
  | op p fails =>
    have hmoved := advance_moved hs
    by_cases hq : q = p
    · subst hq
      have hruns := hmoved.runs
      have hbefore := h q
      omega
    · rw [hmoved.others q hq]
      exact h q

/-- The call has begun and its deadline has passed. -/
def Late (s : PortLock) (p : Nat) : Prop :=
  (s.calls p).pc ≠ .outside ∧ (s.calls p).deadline ≤ s.clock

/-- **One step after the deadline**: an operation of the call leads on, and no other step
moves the call. -/
theorem Late.step (h : Late s p) {e : Event} (hs : PortLock.step s e = some t) :
    Late t p ∧ rank (t.calls p).pc + (if isOpOf p e then 1 else 0) ≤ rank (s.calls p).pc := by
  cases e with
  | tick d =>
    cases hs
    exact ⟨⟨h.1, h.2.trans (by show s.clock ≤ s.clock + d; omega)⟩, le_rfl⟩
  | call q =>
    unfold PortLock.step at hs
    simp only [Option.ite_none_right_eq_some, Option.some.injEq] at hs
    obtain ⟨hpc, rfl⟩ := hs
    have hne : p ≠ q := by
      rintro rfl
      exact h.1 hpc
    unfold Late
    rw [modify_calls, Function.update_of_ne hne]
    exact ⟨h, le_rfl⟩
  | op q fails =>
    have hmoved := advance_moved hs
    by_cases hq : q = p
    · subst hq
      refine ⟨⟨hmoved.outside, ?_⟩, ?_⟩
      · rw [hmoved.deadline, hmoved.clock]
        exact h.2
      · have hless := hmoved.rank h.2
        simp only [isOpOf, decide_true, if_true]
        omega
    · rw [Late, hmoved.others p (Ne.symm hq), hmoved.clock]
      exact ⟨h, by simp [isOpOf, hq]⟩

/-- After the deadline the operations of a call are numbered. -/
theorem Late.rank_le {evs : List Event} (h : Late s p) (hrun : run PortLock.step s evs = some t) :
    Late t p ∧ rank (t.calls p).pc + evs.countP (isOpOf p) ≤ rank (s.calls p).pc := by
  induction evs generalizing s with
  | nil =>
    cases hrun
    exact ⟨h, le_rfl⟩
  | cons e evs ih =>
    obtain ⟨u, hu, hrest⟩ := run_cons_eq_some.mp hrun
    obtain ⟨hlate, hone⟩ := h.step hu
    obtain ⟨hlate', hall⟩ := ih hlate hrest
    rw [List.countP_cons]
    exact ⟨hlate', by omega⟩

/-! ## Runs -/

/-- **The port lock.** In every run of timely steps at most one call is in its action, and
every delete has removed a file its call made or one past the threshold. In every run each
call starts its action at most once and is done after exactly one; it is never blocked, and
eleven operations after its deadline it is done.
SOURCE: KlipperApp.kt:110-139 -/
theorem port_lock_exclusive {clock : Int} {left : Option Int} {evs : List Event} :
    (run (restrict step Timely) (initial clock left) evs = some s →
      (∀ p q, (s.calls p).pc = .action → (s.calls q).pc = .action → p = q) ∧
        ∀ d ∈ s.deletions, d.file.creator = some d.call ∨
          THRESHOLD < d.time - d.file.modified) ∧
    (run step (initial clock left) evs = some s → ∀ p,
      (s.calls p).runs ≤ 1 ∧ ((s.calls p).pc = .done → (s.calls p).runs = 1) ∧
        ((s.calls p).pc ≠ .outside → (s.calls p).pc ≠ .done →
          ∀ fails, (step s (.op p fails)).isSome) ∧
        ((s.calls p).pc ≠ .outside → (s.calls p).deadline ≤ s.clock →
          ∀ evs' t, run step s evs' = some t → 11 ≤ evs'.countP (isOpOf p) →
            (t.calls p).pc = .done)) := by
  constructor
  · intro hrun
    have h : Guarded s := run_restrict_invariant (fun _ _ _ h hg hs => Guarded.step h hg hs)
      (guarded_initial clock left) hrun
    exact ⟨fun p q hp hq => h.unique (.inr (.inl hp)) (.inr (.inl hq)), h.deletions⟩
  · intro hrun p
    have honce : Once s :=
      run_invariant (fun _ _ _ h hs => Once.step h hs) (fun _ => rfl) hrun
    have hruns := honce p
    refine ⟨?_, fun hdone => ?_, fun houtside hdone fails => advance_possible houtside hdone fails,
      fun houtside hlate evs' t hrun' hcount => ?_⟩
    · rw [hruns]
      unfold started
      split <;> decide
    · rw [hruns, hdone]
      rfl
    · obtain ⟨-, hrank⟩ := Late.rank_le ⟨houtside, hlate⟩ hrun'
      have hle : rank (s.calls p).pc ≤ 11 := by
        cases hpc : (s.calls p).pc <;> simp [rank]
        exact houtside hpc
      have hzero : rank (t.calls p).pc = 0 := by omega
      cases hpc : (t.calls p).pc <;> simp [hpc, rank] at hzero
      rfl

/-- The operations of a call, none of which fails. -/
def ops (p n : Nat) : List Event := List.replicate n (.op p false)

/-- A lock file was left behind long ago. One call clears it away and takes the lock, a
second one waits and takes it afterwards. -/
def timelyEvents : List Event :=
  [.call 0, .call 1] ++ ops 0 9 ++ ops 1 4 ++ [.tick 500] ++ ops 0 2 ++ [.tick 30] ++ ops 1 4

/-- In this run the second call is in its action at the end and the first is done. -/
theorem port_lock_exclusive_two_calls :
    ∃ s, run step (initial 100000 (some 7)) timelyEvents = some s ∧
      (s.calls 0).pc = .done ∧ (s.calls 1).pc = .action ∧ s.deletions.length = 2 ∧
      (∀ p, (s.calls p).pc = .action → p = 1) ∧
      (∀ d ∈ s.deletions, d.file.creator = some d.call ∨
        THRESHOLD < d.time - d.file.modified) ∧ (s.calls 0).runs = 1 := by
  have hrun : (run (restrict step Timely) (initial 100000 (some 7)) timelyEvents).any (fun s =>
      (s.calls 0).pc = .done ∧ (s.calls 1).pc = .action ∧ s.deletions.length = 2) = true := by
    decide +kernel
  obtain ⟨s, hs, hlast⟩ := (Option.any_eq_true _ _).mp hrun
  obtain ⟨hdone, haction, hlength⟩ := of_decide_eq_true hlast
  have hplain := run_of_run_restrict hs
  exact ⟨s, hplain, hdone, haction, hlength,
    fun p hp => (port_lock_exclusive.1 hs).1 p 1 hp haction, (port_lock_exclusive.1 hs).2,
    (port_lock_exclusive.2 hplain 0).2.1 hdone⟩

/-- The first call releases the lock between the second one's `createNewFile()` and its
`lastModified()`; the third takes it before the second deletes it. -/
def overtakenEvents : List Event :=
  [.call 0, .call 1, .call 2] ++ ops 0 3 ++ ops 1 3 ++ ops 0 2 ++ ops 1 1 ++ ops 2 3 ++ ops 1 5

/-- The second call takes the missing file for an old one, deletes the third one's lock, and
both are in their actions.
SOURCE: KlipperApp.kt:117-126 -/
theorem port_lock_not_exclusive :
    ¬∀ clock left evs s, run step (initial clock left) evs = some s →
      (∀ p q, (s.calls p).pc = .action → (s.calls q).pc = .action → p = q) ∧
        ∀ d ∈ s.deletions, d.file.creator = some d.call ∨
          THRESHOLD < d.time - d.file.modified := by
  intro h
  have hrun : (run step (initial 100000 none) overtakenEvents).any (fun s =>
      (s.calls 1).pc = .action ∧ (s.calls 2).pc = .action) = true := by
    decide +kernel
  obtain ⟨s, hs, hlast⟩ := (Option.any_eq_true _ _).mp hrun
  obtain ⟨hone, htwo⟩ := of_decide_eq_true hlast
  exact absurd ((h _ _ _ s hs).1 1 2 hone htwo) (by decide)

end Cream.Model.PortLock
