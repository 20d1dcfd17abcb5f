import Cream.Model.CameraServer
import Mathlib.Logic.Function.Iterate

/-!
# What ends the accept loop

`CameraService.kt`: the accepting thread waits for the first line of every client without a
limit, and an exception of that read ends it. `accept_loop_returns_iff` says for which
sequences of clients it comes back to `accept`: those in which every client sends a line end or
closes the connection before it is reset.
-/

set_option autoImplicit false

namespace Cream.Model.CameraServer

open Cream.Library

/-- An event after which the constructor of the handler is done, or thrown out of. -/
def Decides : Event → Prop
  | .bytes chunk => chunk.any isLineEnd
  | .wait => False
  | .eof => True
  | .reset => True

/-- A client whose connection gives a line end or its end before it is reset. -/
def Answers (client : Client) : Prop :=
  ∃ i, Decides (client i) ∧ client i ≠ .reset ∧ ∀ j < i, ¬Decides (client j)

/-- The loop waits for the next client after it has dealt with so many. -/
def Returns (decode : List UInt8 → Text) (clients : Nat → Client) (k : Nat) : Prop :=
  ∃ n, ((step decode clients)^[n] init).phase = .accept ∧
    ((step decode clients)^[n] init).accepted = k

variable (decode : List UInt8 → Text) {clients : Nat → Client} {s : ServerThread}

/-! ## One read -/

/-- The next client is accepted. -/
theorem step_accept (h : s.phase = .accept) :
    step decode clients s = { s with phase := .readLine 0 [], accepted := s.accepted + 1 } := by
  rw [step, h]

/-- Behind an exception nothing happens. -/
theorem step_thrown (h : s.phase = .thrown) : step decode clients s = s := by
  rw [step, h]

/-- A read that decides nothing. -/
theorem step_undecided {i : Nat} {read : List UInt8} (hphase : s.phase = .readLine i read)
    (h : ¬Decides (clients (s.accepted - 1) i)) :
    ∃ read', (step decode clients s).phase = .readLine (i + 1) read' ∧
      (step decode clients s).accepted = s.accepted := by
  unfold step
  rw [hphase]
  dsimp only
  cases hevent : clients (s.accepted - 1) i with
  | bytes chunk =>
    rw [hevent] at h
    have hopen : ¬chunk.any isLineEnd = true := h
    dsimp only
    rw [if_neg hopen]
    exact ⟨_, rfl, rfl⟩
  | wait => exact ⟨_, rfl, rfl⟩
  | eof =>
    rw [hevent] at h
    exact absurd trivial h
  | reset =>
    rw [hevent] at h
    exact absurd trivial h

/-- A read that decides: the handler is made, unless the connection is reset. -/
theorem step_decided {i : Nat} {read : List UInt8} (hphase : s.phase = .readLine i read)
    (h : Decides (clients (s.accepted - 1) i)) :
    (step decode clients s).accepted = s.accepted ∧
      (step decode clients s).phase =
        if clients (s.accepted - 1) i = .reset then .thrown else .accept := by
  unfold step
  rw [hphase]
  dsimp only
  cases hevent : clients (s.accepted - 1) i with
  | bytes chunk =>
    rw [hevent] at h
    have hended : chunk.any isLineEnd = true := h
    dsimp only
    rw [if_pos hended]
    exact ⟨rfl, rfl⟩
  | wait =>
    rw [hevent] at h
    exact absurd h id
  | eof => exact ⟨rfl, rfl⟩
  | reset => exact ⟨rfl, rfl⟩

/-! ## One client -/

/-- The reads before the one that decides. -/
theorem reads_undecided {i : Nat} (h : ∀ j < i, ¬Decides (clients (s.accepted - 1) j))
    (hphase : ∃ read, s.phase = .readLine 0 read) :
    ∃ read, ((step decode clients)^[i] s).phase = .readLine i read ∧
      ((step decode clients)^[i] s).accepted = s.accepted := by
  induction i with
  | zero =>
    obtain ⟨read, hread⟩ := hphase
    exact ⟨read, hread, rfl⟩
  | succ i ih =>
    obtain ⟨read, hread, haccepted⟩ := ih fun j hj => h j (Nat.lt_succ_of_lt hj)
    have hi := h i (Nat.lt_succ_self i)
    rw [← haccepted] at hi
    obtain ⟨read', hread', haccepted'⟩ := step_undecided decode hread hi
    rw [Function.iterate_succ_apply']
    exact ⟨read', hread', haccepted'.trans haccepted⟩

/-- **A client that answers** is dealt with in finitely many steps. -/
theorem Answers.dealt (hphase : s.phase = .accept) (h : Answers (clients s.accepted)) :
    ∃ n, ((step decode clients)^[n] s).phase = .accept ∧
      ((step decode clients)^[n] s).accepted = s.accepted + 1 := by
  obtain ⟨i, hdecides, hreset, hbefore⟩ := h
  have hbegun : step decode clients s =
      { s with phase := .readLine 0 [], accepted := s.accepted + 1 } := step_accept decode hphase
  have hclient : (step decode clients s).accepted - 1 = s.accepted := by
    rw [hbegun]
    exact Nat.add_sub_cancel _ _
  have hundecided : ∀ j < i, ¬Decides (clients ((step decode clients s).accepted - 1) j) := by
    rwa [hclient]
  obtain ⟨read, hread, haccepted⟩ := reads_undecided decode hundecided ⟨[], by rw [hbegun]⟩
  rw [← Function.iterate_succ_apply] at hread haccepted
  rw [← hclient, ← haccepted] at hdecides hreset
  obtain ⟨hsame, hnext⟩ := step_decided decode hread hdecides
  refine ⟨i + 2, ?_, ?_⟩
  · rw [Function.iterate_succ_apply', hnext, if_neg hreset]
  · rw [Function.iterate_succ_apply', hsame, haccepted, hbegun]

/-- What the clients before have done when the loop is somewhere. -/
def Served (clients : Nat → Client) (s : ServerThread) : Prop :=
  match s.phase with
  | .accept => ∀ j < s.accepted, Answers (clients j)
  | .readLine i _ => 0 < s.accepted ∧ (∀ j < s.accepted - 1, Answers (clients j)) ∧
      ∀ j < i, ¬Decides (clients (s.accepted - 1) j)
  | .thrown => True

/-- **Every step** serves the clients accepted so far. -/
theorem Served.step (h : Served clients s) : Served clients (step decode clients s) := by
  cases hphase : s.phase with
  | accept =>
    unfold Served at h
    rw [hphase] at h
    rw [step_accept decode hphase]
    exact ⟨Nat.succ_pos _, h, fun j hj => absurd hj (Nat.not_lt_zero j)⟩
  | readLine i read =>
    unfold Served at h
    rw [hphase] at h
    obtain ⟨hpos, hbefore, hundecided⟩ := h
    by_cases hdecides : Decides (clients (s.accepted - 1) i)
    · obtain ⟨haccepted, hnext⟩ := step_decided decode hphase hdecides
      unfold Served
      rw [hnext, haccepted]
      by_cases hreset : clients (s.accepted - 1) i = .reset
      · rw [if_pos hreset]
        exact trivial
      · rw [if_neg hreset]
        intro j hj
        rcases Nat.lt_or_eq_of_le (Nat.le_sub_one_of_lt hj) with hlt | rfl
        · exact hbefore j hlt
        · exact ⟨i, hdecides, hreset, hundecided⟩
    · obtain ⟨read', hnext, haccepted⟩ := step_undecided decode hphase hdecides
      unfold Served
      rw [hnext, haccepted]
      refine ⟨hpos, hbefore, fun j hj => ?_⟩
      rcases Nat.lt_or_eq_of_le (Nat.le_of_lt_succ hj) with hlt | rfl
      · exact hundecided j hlt
      · exact hdecides
  | thrown =>
    rw [step_thrown decode hphase]
    exact h

/-- So does every number of steps. -/
theorem served_iterate (decode : List UInt8 → Text) (clients : Nat → Client) (n : Nat) :
    Served clients ((CameraServer.step decode clients)^[n] init) := by
  induction n with
  | zero => exact fun j hj => absurd hj (Nat.not_lt_zero j)
  | succ n ih =>
    rw [Function.iterate_succ_apply']
    exact ih.step decode

/-- **What ends the accept loop**: whatever the clients do, the loop is back at `accept` after
any number of them, in finitely many of its own steps, exactly when each of them sends a line
end or closes its connection before it is reset.

SOURCE: CameraService.kt:315-334,336-376 -/
theorem accept_loop_returns_iff (decode : List UInt8 → Text) (clients : Nat → Client) (k : Nat) :
    Returns decode clients k ↔ ∀ j < k, Answers (clients j) := by
  constructor
  · rintro ⟨n, hphase, haccepted⟩ j hj
    have hserved := served_iterate decode clients n
    unfold Served at hserved
    rw [hphase] at hserved
    exact hserved j (haccepted ▸ hj)
  · intro h
    induction k with
    | zero => exact ⟨0, rfl, rfl⟩
    | succ k ih =>
      obtain ⟨n, hphase, haccepted⟩ := ih fun j hj => h j (Nat.lt_succ_of_lt hj)
      have hanswers : Answers (clients ((CameraServer.step decode clients)^[n] init).accepted) := by
        rw [haccepted]
        exact h k (Nat.lt_succ_self k)
      obtain ⟨m, hphase', haccepted'⟩ := hanswers.dealt decode hphase
      refine ⟨m + n, ?_, ?_⟩
      · rw [Function.iterate_add_apply, hphase']
      · rw [Function.iterate_add_apply, haccepted', haccepted]

/-- **Not every client leaves the loop alive**: one that sends nothing keeps it waiting. -/
theorem accept_loop_not_returns :
    ¬∀ (decode : List UInt8 → Text) (clients : Nat → Client) (k : Nat), Returns decode clients k := by
  intro h
  obtain ⟨n, hphase, haccepted⟩ := h (fun _ => []) (fun _ _ => .wait) 1
  have hserved := served_iterate (fun _ => []) (fun _ _ => .wait) n
  unfold Served at hserved
  rw [hphase] at hserved
  obtain ⟨i, hdecides, -, -⟩ := hserved 0 (by rw [haccepted]; exact Nat.one_pos)
  exact hdecides

end Cream.Model.CameraServer
