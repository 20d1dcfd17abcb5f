import Mathlib.Data.List.Count
import Mathlib.Order.OrderIsoNat

/-!
# Runs of a partial step function

A system is a step function `σ → α → Option σ`: the second argument is the event, and
`none` says that the event cannot occur in that state. `run` plays a list of events.
`restrict` keeps the events a guard allows, so `run (restrict step guard)` is a run
all of whose steps meet the guard. The rules a development uses are
`run_invariant` (what one step preserves holds after every run), its form for properties
that need something of every state of the run (`run_throughout_invariant`), `eventually_never`
(events that decrease a well-founded measure cannot go on for ever), and `run_queue_head`
(in a first-in first-out queue an element comes to the head after exactly as many removals
as there are elements before it).
-/

set_option autoImplicit false

namespace Cream.Library.Transition

variable {σ α β : Type*}

/-- Play a list of events from a state; `none` as soon as one of them cannot occur. -/
def run (step : σ → α → Option σ) : σ → List α → Option σ
  | s, [] => some s
  | s, a :: as => (step s a).bind fun t => run step t as

/-- The system whose events are those the guard allows. -/
def restrict (step : σ → α → Option σ) (guard : σ → α → Prop)
    [∀ s a, Decidable (guard s a)] (s : σ) (a : α) : Option σ :=
  if guard s a then step s a else none

/-- A run without actions ends where it begins. -/
@[simp] theorem run_nil (step : σ → α → Option σ) (s : σ) : run step s [] = some s := rfl

/-- A nonempty run is a first step and a run from where it leads. -/
theorem run_cons_eq_some {step : σ → α → Option σ} {s u : σ} {a : α} {as : List α} :
    run step s (a :: as) = some u ↔ ∃ t, step s a = some t ∧ run step t as = some u := by
  simp [run, Option.bind_eq_some_iff]

/-- Runs compose along concatenation of their events. -/
theorem run_append_eq_some {step : σ → α → Option σ} {s u : σ} {as bs : List α} :
    run step s (as ++ bs) = some u ↔
      ∃ t, run step s as = some t ∧ run step t bs = some u := by
  induction as generalizing s with
  | nil => simp
  | cons a as ih =>
    simp only [List.cons_append, run_cons_eq_some, ih]
    constructor
    · rintro ⟨t, ht, t', ht', hu⟩
      exact ⟨t', ⟨t, ht, ht'⟩, hu⟩
    · rintro ⟨t', ⟨t, ht, ht'⟩, hu⟩
      exact ⟨t, ht, t', ht', hu⟩

/-- A step of the restricted system is a step of the system that meets the guard. -/
theorem restrict_eq_some {step : σ → α → Option σ} {guard : σ → α → Prop}
    [∀ s a, Decidable (guard s a)] {s t : σ} {a : α} :
    restrict step guard s a = some t ↔ guard s a ∧ step s a = some t := by
  unfold restrict
  split
  · next h => simp [h]
  · next h => simp [h]

/-- **The invariant rule**: a property of the first state that every step preserves
holds in the last state of every run. -/
theorem run_invariant {step : σ → α → Option σ} {inv : σ → Prop}
    (hstep : ∀ s a t, inv s → step s a = some t → inv t) {s u : σ} {as : List α}
    (hs : inv s) (hrun : run step s as = some u) : inv u := by
  induction as generalizing s with
  | nil =>
    rw [run_nil, Option.some.injEq] at hrun
    exact hrun ▸ hs
  | cons a as ih =>
    obtain ⟨t, ht, hu⟩ := run_cons_eq_some.mp hrun
    exact ih (hstep s a t hs ht) hu

/-- The invariant rule for guarded runs: only the steps that meet the guard have to
preserve the property. -/
theorem run_restrict_invariant {step : σ → α → Option σ} {guard : σ → α → Prop}
    [∀ s a, Decidable (guard s a)] {inv : σ → Prop}
    (hstep : ∀ s a t, inv s → guard s a → step s a = some t → inv t) {s u : σ}
    {as : List α} (hs : inv s) (hrun : run (restrict step guard) s as = some u) : inv u :=
  run_invariant (fun s a t hi h =>
    let h' := restrict_eq_some.mp h
    hstep s a t hi h'.1 h'.2) hs hrun

/-- A guarded run is a run. -/
theorem run_of_run_restrict {step : σ → α → Option σ} {guard : σ → α → Prop}
    [∀ s a, Decidable (guard s a)] {s u : σ} {as : List α}
    (hrun : run (restrict step guard) s as = some u) : run step s as = some u := by
  induction as generalizing s with
  | nil => exact hrun
  | cons a as ih =>
    obtain ⟨t, ht, hu⟩ := run_cons_eq_some.mp hrun
    exact run_cons_eq_some.mpr ⟨t, (restrict_eq_some.mp ht).2, ih hu⟩

/-- All states of a run have a property. -/
def Throughout (step : σ → α → Option σ) (P : σ → Prop) : σ → List α → Prop
  | s, [] => P s
  | s, a :: as => P s ∧ ∀ t, step s a = some t → Throughout step P t as

instance Throughout.decidable (step : σ → α → Option σ) (P : σ → Prop) [DecidablePred P] :
    (s : σ) → (as : List α) → Decidable (Throughout step P s as)
  | s, [] => inferInstanceAs (Decidable (P s))
  | s, a :: as =>
    match h : step s a with
    | none => decidable_of_iff (P s) ⟨fun hp => ⟨hp, fun t ht => by rw [h] at ht; cases ht⟩,
        fun hp => hp.1⟩
    | some t =>
      have := Throughout.decidable step P t as
      decidable_of_iff (P s ∧ Throughout step P t as)
        ⟨fun hp => ⟨hp.1, fun u hu => by rw [h] at hu; cases hu; exact hp.2⟩,
          fun hp => ⟨hp.1, hp.2 t h⟩⟩

/-- What holds throughout holds at the beginning. -/
theorem Throughout.head {step : σ → α → Option σ} {P : σ → Prop} {s : σ} {as : List α}
    (h : Throughout step P s as) : P s := by
  cases as with
  | nil => exact h
  | cons a as => exact h.1

/-- A guard leaves fewer states. -/
theorem Throughout.restrict {step : σ → α → Option σ} {P : σ → Prop} {s : σ} {as : List α}
    (h : Throughout step P s as) (guard : σ → α → Prop) [∀ s a, Decidable (guard s a)] :
    Throughout (restrict step guard) P s as := by
  induction as generalizing s with
  | nil => exact h
  | cons a as ih => exact ⟨h.1, fun t ht => ih (h.2 t (restrict_eq_some.mp ht).2)⟩

/-- The invariant rule for runs all of whose states have a property. -/
theorem run_throughout_invariant {step : σ → α → Option σ} {inv P : σ → Prop}
    (hstep : ∀ s a t, inv s → P s → P t → step s a = some t → inv t) {s u : σ} {as : List α}
    (hs : inv s) (hP : Throughout step P s as) (hrun : run step s as = some u) :
    inv u ∧ P u := by
  induction as generalizing s with
  | nil =>
    rw [run_nil, Option.some.injEq] at hrun
    exact hrun ▸ ⟨hs, hP⟩
  | cons a as ih =>
    obtain ⟨t, ht, hu⟩ := run_cons_eq_some.mp hrun
    have hPt := hP.2 t ht
    exact ih (hstep s a t hs hP.1 hPt.head ht) hPt hu

/-- **The termination rule**: when a well-founded measure never grows, and the events `p`
marks decrease it, they occur finitely often in a run that goes on for ever. -/
theorem eventually_never {ρ : Type*} [PartialOrder ρ] [WellFoundedLT ρ]
    {step : σ → α → Option σ} {inv : σ → Prop} {measure : σ → ρ} {p : α → Prop}
    (hinv : ∀ s a t, inv s → step s a = some t → inv t)
    (hle : ∀ s a t, inv s → step s a = some t → measure t ≤ measure s)
    (hlt : ∀ s a t, inv s → p a → step s a = some t → measure t < measure s)
    {ss : Nat → σ} {as : Nat → α} (hs : inv (ss 0))
    (hsteps : ∀ n, step (ss n) (as n) = some (ss (n + 1))) :
    ∃ n, ∀ m, n ≤ m → ¬p (as m) := by
  have hall : ∀ n, inv (ss n) := by
    intro n
    induction n with
    | zero => exact hs
    | succ n ih => exact hinv _ _ _ ih (hsteps n)
  have hanti : Antitone fun n => measure (ss n) :=
    antitone_nat_of_succ_le fun n => hle _ _ _ (hall n) (hsteps n)
  obtain ⟨n, hn⟩ := WellFoundedLT.antitone_chain_condition hanti
  refine ⟨n, fun m hm hp => ?_⟩
  have hdecrease := hlt _ _ _ (hall m) hp (hsteps m)
  have hsame : measure (ss (m + 1)) = measure (ss m) := by
    rw [← hn m hm, ← hn (m + 1) (Nat.le_succ_of_le hm)]
  exact absurd hsame (ne_of_lt hdecrease)

/-- A system keeps a first-in first-out queue when the events `pop` marks take its head
away, the others leave it, and both kinds only append to it. -/
def Fifo (step : σ → α → Option σ) (queue : σ → List β) (pop : α → Bool) : Prop :=
  ∀ s a t, step s a = some t →
    if pop a then ∃ b q p, queue s = b :: q ∧ queue t = q ++ p
    else ∃ p, queue t = queue s ++ p

/-- **The queue rule**: an element with `pre` before it is at the head after a run that
has taken exactly `pre.length` elements away. -/
theorem run_queue_head {step : σ → α → Option σ} {queue : σ → List β} {pop : α → Bool}
    (hfifo : Fifo step queue pop) {s u : σ} {as : List α} {pre post : List β} {b : β}
    (hrun : run step s as = some u) (hpop : as.countP pop = pre.length)
    (hqueue : queue s = pre ++ b :: post) : ∃ rest, queue u = b :: rest := by
  induction as generalizing s pre post with
  | nil =>
    rw [run_nil, Option.some.injEq] at hrun
    have hpre : pre = [] := List.length_eq_zero_iff.mp hpop.symm
    subst hpre hrun
    exact ⟨post, hqueue⟩
  | cons a as ih =>
    obtain ⟨t, ht, hu⟩ := run_cons_eq_some.mp hrun
    have hstep := hfifo s a t ht
    cases ha : pop a with
    | true =>
      simp only [ha, if_true] at hstep
      obtain ⟨c, q, p, hs, ht'⟩ := hstep
      rw [List.countP_cons_of_pos ha] at hpop
      cases pre with
      | nil => simp at hpop
      | cons d pre =>
        rw [hs, List.cons_append, List.cons.injEq] at hqueue
        have hq : queue t = pre ++ b :: (post ++ p) := by
          rw [ht', hqueue.2]
          simp
        exact ih hu (by simpa using hpop) hq
    | false =>
      simp only [ha, Bool.false_eq_true, if_false] at hstep
      obtain ⟨p, ht'⟩ := hstep
      rw [List.countP_cons_of_neg (by simp [ha])] at hpop
      have hq : queue t = pre ++ b :: (post ++ p) := by
        rw [ht', hqueue]
        simp
      exact ih hu hpop hq

/-- The queue rule carries over to the guarded system. -/
theorem Fifo.restrict {step : σ → α → Option σ} {queue : σ → List β} {pop : α → Bool}
    (h : Fifo step queue pop) (guard : σ → α → Prop) [∀ s a, Decidable (guard s a)] :
    Fifo (restrict step guard) queue pop :=
  fun s a t ht => h s a t (restrict_eq_some.mp ht).2

end Cream.Library.Transition
