import Cream.Model.BasePythonService

/-!
# Starting Python

The loop ends well exactly when Python does not run before it and its first attempt that does
not throw comes before any `IllegalStateException` (`retry_py_iff`). Where the marker is
missing, seeding starts Python itself, and then the loop takes the answer that Python runs for
a failure and the process is killed.
-/

set_option autoImplicit false

namespace Cream.Analysis

open Cream.Model

namespace PythonStartUp

open PythonProcess

/-- A process before the block. -/
structure Fresh (s : PythonProcess) : Prop where
  py : s.py = false
  killed : s.killed = false
  calls : s.calls = 0
  attempts : s.attempts = 0

/-- Python runs when the loop is reached, or one of four attempts can succeed. -/
def CanStart (env : StartOutcomes) (s : PythonProcess) : Prop :=
  let seeded := s.seedChaquopyDirLocked env
  seeded.started ∨ ∃ k < 4, env (seeded.calls + k) = none

/-- What the block is to do. -/
def StartsPython (env : StartOutcomes) (s : PythonProcess) : Prop :=
  let t := s.onCreate env
  (CanStart env s → t.py = true ∧ t.killed = false) ∧ t.attempts ≤ 4

/-- If one of four attempts succeeds, one does before any `IllegalStateException`. -/
def NoFalseAlarm (env : StartOutcomes) (first : Nat) : Prop :=
  (∃ k < 4, env (first + k) = none) → ∃ j < 4, env (first + j) = none ∧
    ∀ i < j, env (first + i) ≠ some .illegalState

/-- Python does not run yet, seeding does not start it, and no attempt throws
`IllegalStateException` before one succeeds. -/
def Startable (env : StartOutcomes) (s : PythonProcess) : Prop :=
  s.started = false ∧
  if s.marker then NoFalseAlarm env 0
  else
    match env 0 with
    | none => False
    | some .illegalState => NoFalseAlarm env 1
    | some _ => env 1 ≠ none ∧ NoFalseAlarm env 2

/-! ## The loop -/

variable {env : StartOutcomes} {s : PythonProcess}

/-- No more attempts are made than are left. -/
theorem retry_attempts (left : Nat) (s : PythonProcess) :
    (s.retry env left).attempts ≤ s.attempts + left := by
  induction left generalizing s with
  | zero => exact Nat.le_refl _
  | succ left ih =>
    have hstart : ({ s with attempts := s.attempts + 1 }.start env).1.attempts = s.attempts + 1 := by
      unfold PythonProcess.start
      split
      · rfl
      · split <;> rfl
    unfold retry
    split
    · next h =>
      rw [h] at hstart
      simp only at hstart ⊢
      omega
    · next h =>
      rw [h] at hstart
      simp only at hstart ⊢
      omega
    · next t h =>
      rw [h] at hstart
      have hrest := ih { t with chaquopyDir := false }
      simp only at hstart hrest
      omega
    · next t h =>
      rw [h] at hstart
      have hrest := ih t
      simp only at hstart
      omega

/-- A further attempt kills nothing. -/
theorem retry_killed (left : Nat) (s : PythonProcess) : (s.retry env left).killed = s.killed := by
  induction left generalizing s with
  | zero => rfl
  | succ left ih =>
    have hstart : ({ s with attempts := s.attempts + 1 }.start env).1.killed = s.killed := by
      unfold PythonProcess.start
      split
      · rfl
      · split <;> rfl
    unfold retry
    split
    · next h => rwa [h] at hstart
    · next h => rwa [h] at hstart
    · next t h =>
      rw [h] at hstart
      exact (ih _).trans hstart
    · next t h =>
      rw [h] at hstart
      exact (ih t).trans hstart

/-- **The loop starts Python** exactly when Python does not run and an attempt succeeds before
any `IllegalStateException`. -/
theorem retry_py_iff (left : Nat) (hpy : s.py = false) :
    (s.retry env left).py = true ↔ s.started = false ∧ ∃ j < left, env (s.calls + j) = none ∧
      ∀ i < j, env (s.calls + i) ≠ some .illegalState := by
  induction left generalizing s with
  | zero =>
    unfold retry
    rw [hpy]
    constructor
    · intro h
      cases h
    · rintro ⟨-, j, hj, -⟩
      exact absurd hj (Nat.not_lt_zero j)
  | succ left ih =>
    cases hstarted : s.started with
    | true =>
      have hstart : { s with attempts := s.attempts + 1 }.start env =
          ({ s with attempts := s.attempts + 1 }, some .illegalState) := by
        unfold PythonProcess.start
        rw [if_pos hstarted]
      unfold retry
      rw [hstart]
      simp [hpy]
    | false =>
      cases henv : env s.calls with
      | none =>
        have hstart : { s with attempts := s.attempts + 1 }.start env =
            ({ s with attempts := s.attempts + 1, started := true, calls := s.calls + 1 }, none) := by
          unfold PythonProcess.start
          simp [hstarted, henv]
        unfold retry
        rw [hstart]
        refine iff_of_true rfl ⟨rfl, 0, Nat.succ_pos left, henv, fun i hi => ?_⟩
        exact absurd hi (Nat.not_lt_zero i)
      | some e =>
        have hstart : { s with attempts := s.attempts + 1 }.start env =
            ({ s with attempts := s.attempts + 1, calls := s.calls + 1 }, some e) := by
          unfold PythonProcess.start
          simp [hstarted, henv]
        -- the attempts after this one
        have hshift : e ≠ .illegalState → ((∃ j < left, env (s.calls + 1 + j) = none ∧
              ∀ i < j, env (s.calls + 1 + i) ≠ some .illegalState) ↔
            ∃ j < left + 1, env (s.calls + j) = none ∧
              ∀ i < j, env (s.calls + i) ≠ some .illegalState) := by
          intro hne
          constructor
          · rintro ⟨j, hj, hnone, hbefore⟩
            refine ⟨j + 1, by omega, by rwa [Nat.add_right_comm] at hnone, fun i hi => ?_⟩
            cases i with
            | zero =>
              rw [Nat.add_zero, henv]
              exact fun h => hne (Option.some.inj h)
            | succ i =>
              have hi' := hbefore i (by omega)
              rwa [Nat.add_right_comm] at hi'
          · rintro ⟨j, hj, hnone, hbefore⟩
            cases j with
            | zero =>
              rw [Nat.add_zero, henv] at hnone
              cases hnone
            | succ j =>
              refine ⟨j, by omega, by rwa [Nat.add_right_comm], fun i hi => ?_⟩
              have hi' := hbefore (i + 1) (by omega)
              rwa [Nat.add_right_comm]
        unfold retry
        rw [hstart]
        cases e with
        | illegalState =>
          simp only [hpy]
          refine iff_of_false (by simp) ?_
          rintro ⟨-, j, -, hnone, hbefore⟩
          cases j with
          | zero =>
            rw [Nat.add_zero, henv] at hnone
            cases hnone
          | succ j => exact hbefore 0 (Nat.succ_pos j) (by rw [Nat.add_zero, henv])
        | fileError =>
          rw [ih (by exact hpy), ← hshift (by decide)]
          simp [hstarted]
        | other =>
          rw [ih (by exact hpy), ← hshift (by decide)]
          simp [hstarted]

/-! ## The block -/

/-- INTERNAL: what seeding leaves. -/
theorem seed_fields (env : StartOutcomes) (s : PythonProcess) :
    (s.seedChaquopyDirLocked env).py = s.py ∧ (s.seedChaquopyDirLocked env).killed = s.killed ∧
      (s.seedChaquopyDirLocked env).attempts = s.attempts := by
  have hstart : ∀ t : PythonProcess, (t.startUnlessStarted env).1.py = t.py ∧
      (t.startUnlessStarted env).1.killed = t.killed ∧
      (t.startUnlessStarted env).1.attempts = t.attempts := by
    intro t
    unfold startUnlessStarted PythonProcess.start
    split
    · exact ⟨rfl, rfl, rfl⟩
    · split <;> exact ⟨rfl, rfl, rfl⟩
  have hfirst := hstart s
  unfold seedChaquopyDirLocked
  split
  · exact ⟨rfl, rfl, rfl⟩
  · split
    · next h => rwa [h] at hfirst
    · next h => rwa [h] at hfirst
    · next t e _ h =>
      rw [h] at hfirst
      have hsecond := hstart { t with chaquopyDir := false }
      exact ⟨hsecond.1.trans hfirst.1, hsecond.2.1.trans hfirst.2.1,
        hsecond.2.2.trans hfirst.2.2⟩

/-- INTERNAL: when the block does what it is to do, in terms of what seeding leaves. -/
theorem startsPython_iff (h : Fresh s) : StartsPython env s ↔
    (CanStart env s → (s.seedChaquopyDirLocked env).started = false ∧
      ∃ j < 4, env ((s.seedChaquopyDirLocked env).calls + j) = none ∧
        ∀ i < j, env ((s.seedChaquopyDirLocked env).calls + i) ≠ some .illegalState) := by
  obtain ⟨hpy, hkilled, hattempts⟩ := seed_fields env s
  have hpy' : (s.seedChaquopyDirLocked env).py = false := hpy.trans h.py
  have hiff := @retry_py_iff env _ 4 hpy'
  have hle := @retry_attempts env 4 (s.seedChaquopyDirLocked env)
  rw [hattempts, h.attempts] at hle
  have hnot := @retry_killed env 4 (s.seedChaquopyDirLocked env)
  rw [hkilled, h.killed] at hnot
  unfold StartsPython onCreate
  rw [← hiff]
  cases hend : ((s.seedChaquopyDirLocked env).retry env 4).py with
  | true => simp [hend, hnot, hle]
  | false => simp [hend, hle]

/-- When no alarm is false. -/
theorem noFalseAlarm_iff {n : Nat} {started : Bool} : ((started = true ∨ ∃ k < 4, env (n + k) = none) →
    started = false ∧ ∃ j < 4, env (n + j) = none ∧ ∀ i < j, env (n + i) ≠ some .illegalState) ↔
      started = false ∧ NoFalseAlarm env n := by
  cases started with
  | true => simp
  | false => simp [NoFalseAlarm]

/-- **The start-up block starts Python** whenever it can, exactly when Python does not run
before the loop and no `IllegalStateException` comes first.

SOURCE: BasePythonService.kt:51-96, KlipperApp.kt:141-167 -/
theorem python_starts_iff (env : StartOutcomes) (s : PythonProcess) (h : Fresh s) :
    StartsPython env s ↔ Startable env s := by
  rw [startsPython_iff h]
  unfold CanStart
  rw [noFalseAlarm_iff]
  unfold Startable seedChaquopyDirLocked
  cases hmarker : s.marker with
  | true =>
    simp only [if_true, h.calls]
  | false =>
    simp only [Bool.false_eq_true, if_false]
    cases hstarted : s.started with
    | true =>
      have hkeep : s.startUnlessStarted env = (s, none) := by
        unfold startUnlessStarted
        rw [if_pos hstarted]
      simp [hkeep, hstarted]
    | false =>
      have hcall : s.startUnlessStarted env = s.start env := by
        unfold startUnlessStarted
        rw [hstarted]
        rfl
      cases h0 : env 0 with
      | none =>
        have hstart : s.start env = ({ s with started := true, calls := 1 }, none) := by
          unfold PythonProcess.start
          simp [hstarted, h.calls, h0]
        simp [hcall, hstart]
      | some e =>
        have hstart : s.start env = ({ s with calls := 1 }, some e) := by
          unfold PythonProcess.start
          simp [hstarted, h.calls, h0]
        -- the second call of `Python.start` in seeding
        have hsecond : ({ s with calls := 1, chaquopyDir := false }.startUnlessStarted env).1 =
            { s with calls := 2, chaquopyDir := false, started := (env 1).isNone } := by
          unfold startUnlessStarted PythonProcess.start
          cases env 1 <;> simp [hstarted]
        cases e with
        | illegalState => simp [hcall, hstart, hstarted]
        | fileError =>
          simp only [hcall, hstart, hsecond]
          cases h1 : env 1 <;> simp
        | other =>
          simp only [hcall, hstart, hsecond]
          cases h1 : env 1 <;> simp

/-- A first start on a new installation: the marker is missing, and every call of
`Python.start` would succeed. -/
def firstStart : PythonProcess where
  started := false
  marker := false
  chaquopyDir := false
  py := false
  calls := 0
  attempts := 0
  killed := false

/-- The result for a start with the marker. -/
theorem python_starts_iff_seeded :
    Fresh { firstStart with marker := true } ∧
      (StartsPython (fun _ => none) { firstStart with marker := true } ↔
        Startable (fun _ => none) { firstStart with marker := true }) :=
  ⟨⟨rfl, rfl, rfl, rfl⟩, python_starts_iff _ _ ⟨rfl, rfl, rfl, rfl⟩⟩

/-- On a first start seeding has started Python, and the process is killed. -/
theorem python_not_started : ¬∀ (env : StartOutcomes) (s : PythonProcess), Fresh s →
    StartsPython env s := by
  intro h
  have hstart := (h (fun _ => none) firstStart ⟨rfl, rfl, rfl, rfl⟩).1 (.inl rfl)
  exact absurd hstart.1 (by decide)

end PythonStartUp

end Cream.Analysis
