import Cream.Library.Transition
import Cream.Model.EventBus
import Mathlib.Data.Prod.Lex
import Mathlib.Order.WellFounded

/-!
# To whom an event is handed

The loop first iterates over `handlers` itself. As long as it does, it has handed the event to
the listeners before its cursor (`Sound`). A modification of the list shows at the next turn:
the iteration may end there, with the listeners behind the cursor left out, or it starts over on
a copy of the list, and hands the event again to the listeners that were before the cursor and
still are registered. `Clean` is the turns where neither happens to anyone; in every run of such
turns each listener is handed the event as often as it is registered
(`delivered_as_registered`). On the copy nothing can go wrong any more.
-/

set_option autoImplicit false

namespace Cream.Model

open Cream.Library.Transition Cream.Library.FailFast

namespace Delivery

variable {L : Type*} [DecidableEq L] {rt : HasNext} {fired : List L} {s t : Delivery L}

/-! ## The turns that serve everyone -/

/-- The loop does not start over while a listener before the cursor is registered, nor end on
the list of the bus while a listener behind the cursor is. -/
def Clean (fired : List L) (rt : HasNext) (s : Delivery L) : Action L → Prop
  | .loop =>
    (s.pc = .catchModification → ∀ l ∈ fired.take s.it.cursor, l ∉ s.handlers.elements) ∧
      (s.pc = .hasNext → s.clone = none → s.it.hasNext s.handlers rt = false →
        ∀ l ∈ fired.drop s.it.cursor, l ∉ s.handlers.elements)
  | .registerListener _ => True
  | .unregisterListener _ => True

instance (s : Delivery L) (a : Action L) : Decidable (Clean fired rt s a) :=
  match a with
  | .loop => inferInstanceAs (Decidable (_ ∧ (_ → s.clone = none → _)))
  | .registerListener _ => inferInstanceAs (Decidable True)
  | .unregisterListener _ => inferInstanceAs (Decidable True)

/-! ## The loop and its iterator -/

/-- The elements the iterator was made on: the listeners when the event was fired, or the
copy. -/
def source (fired : List L) (s : Delivery L) : List L :=
  match s.clone with
  | none => fired
  | some clone => clone.elements

/-- What holds all along the delivery of an event fired to `fired`. -/
structure Sound (fired : List L) (s : Delivery L) : Prop where
  iterates : Iterates (s.source fired) s.it s.iterated
  left : s.pc = .next → s.iterated.modCount = s.it.expectedModCount →
    s.it.cursor < (s.source fired).length
  unmodified : ∀ clone, s.clone = some clone → clone.modCount = s.it.expectedModCount
  caught : s.pc = .catchModification → s.clone = none
  notThrown : s.pc ≠ .threw
  handed : s.clone = none → s.handed = fired.take s.it.cursor

omit [DecidableEq L] in
/-- Before the first handler is called. -/
theorem sound_fireEvent (handlers : ArrayList L) :
    Sound handlers.elements (fireEvent handlers) where
  iterates := iterates_iterator handlers
  left h := by cases h
  unmodified _ h := by cases h
  caught h := by cases h
  notThrown h := by cases h
  handed _ := rfl

/-- Everything a step can do.
SOURCE: EventBus.java:95-104, 129-152 -/
theorem Sound.step_cases (h : Sound fired s) {a : Action L} (hs : step rt s a = some t) :
    (∃ l, (t = { s with handlers := s.handlers.add l } ∨
      t = { s with handlers := s.handlers.remove l }) ∧ a ≠ .loop ∧ s.pc ≠ .returned) ∨
    (a = .loop ∧ s.pc = .hasNext ∧ s.it.hasNext s.iterated rt = true ∧
      t = { s with pc := .next }) ∨
    (a = .loop ∧ s.pc = .hasNext ∧ s.it.hasNext s.iterated rt = false ∧
      t = { s with pc := .returned }) ∨
    (a = .loop ∧ s.pc = .next ∧ ∃ obj, (s.source fired)[s.it.cursor]? = some obj ∧
      Iterates (s.source fired) { s.it with cursor := s.it.cursor + 1 } s.iterated ∧
      t = { s with
        it := { s.it with cursor := s.it.cursor + 1 }
        pc := .onEvent
        handed := s.handed ++ [obj] }) ∨
    (a = .loop ∧ s.pc = .next ∧ s.clone = none ∧ t = { s with pc := .catchModification }) ∨
    (a = .loop ∧ s.pc = .onEvent ∧ t = { s with index := s.index + 1, pc := .hasNext }) ∨
    (a = .loop ∧ s.pc = .catchModification ∧ s.clone = none ∧ t = s.fireEvent0 true s.index) := by
  cases a with
  | registerListener l =>
    left
    simp only [step, Option.ite_none_left_eq_some, Option.some.injEq, not_or] at hs
    exact ⟨l, .inl hs.2.symm, nofun, hs.1.1⟩
  | unregisterListener l =>
    left
    simp only [step, Option.ite_none_left_eq_some, Option.some.injEq, not_or] at hs
    exact ⟨l, .inr hs.2.symm, nofun, hs.1.1⟩
  | loop =>
    right
    unfold step loop at hs
    cases hpc : s.pc with
    | hasNext =>
      simp only [hpc, Option.some.injEq] at hs
      cases hnext : s.it.hasNext s.iterated rt with
      | true =>
        rw [hnext, if_pos rfl] at hs
        exact .inl ⟨rfl, rfl, rfl, hs.symm⟩
      | false =>
        rw [hnext, if_neg Bool.false_ne_true] at hs
        exact .inr (.inl ⟨rfl, rfl, rfl, hs.symm⟩)
    | next =>
      simp only [hpc] at hs
      right; right
      cases hnext : s.it.next s.iterated with
      | ok found =>
        obtain ⟨obj, it⟩ := found
        simp only [hnext, Option.some.injEq] at hs
        obtain ⟨-, hobj, rfl, hit⟩ := h.iterates.next_ok hnext
        exact .inl ⟨rfl, rfl, obj, hobj, hit, hs.symm⟩
      | error e =>
        obtain ⟨rfl, hmod⟩ := h.iterates.next_error (h.left hpc) hnext
        simp only [hnext, Option.some.injEq] at hs
        refine .inr (.inl ⟨rfl, rfl, ?_, hs.symm⟩)
        -- nobody modifies the copy
        cases hclone : s.clone with
        | none => rfl
        | some clone =>
          refine absurd ?_ hmod
          rw [iterated, hclone]
          exact h.unmodified clone hclone
    | onEvent =>
      simp only [hpc, Option.some.injEq] at hs
      exact .inr (.inr (.inr (.inr (.inl ⟨rfl, rfl, hs.symm⟩))))
    | catchModification =>
      simp only [hpc, Option.some.injEq] at hs
      exact .inr (.inr (.inr (.inr (.inr ⟨rfl, rfl, h.caught hpc, hs.symm⟩))))
    | returned =>
      simp only [hpc] at hs
      cases hs
    | threw =>
      exact absurd hpc h.notThrown

omit [DecidableEq L] in
/-- A modification of `handlers` may surprise the iterator, but not the loop. -/
theorem Sound.modified (h : Sound fired s) {zs : List L} :
    Sound fired { s with handlers := ⟨zs, s.handlers.modCount + 1⟩ } := by
  obtain ⟨handlers, clone, it, index, pc, handed⟩ := s
  cases clone with
  | none =>
    have hiterates : Iterates fired it handlers := h.iterates
    have hlt : it.expectedModCount < handlers.modCount + 1 :=
      Nat.lt_succ_of_le hiterates.expected
    exact ⟨hiterates.modified, fun _ hsame => absurd hsame (Nat.ne_of_gt hlt), h.unmodified,
      h.caught, h.notThrown, h.handed⟩
  | some clone =>
    exact ⟨h.iterates, h.left, h.unmodified, h.caught, h.notThrown, h.handed⟩

/-- **One step** keeps the loop sound. -/
theorem sound_step (h : Sound fired s) {a : Action L} (hs : step rt s a = some t) :
    Sound fired t := by
  rcases h.step_cases hs with ⟨l, hl, -, -⟩ | ⟨-, hpc, hnext, rfl⟩ | ⟨-, -, -, rfl⟩ |
    ⟨-, -, obj, hobj, hit, rfl⟩ | ⟨-, -, hclone, rfl⟩ | ⟨-, -, rfl⟩ | ⟨-, -, -, rfl⟩
  · rcases hl with rfl | rfl
    · exact h.modified
    · unfold ArrayList.remove
      split
      · exact h.modified
      · exact h
  · refine ⟨h.iterates, fun _ hsame => ?_, h.unmodified, nofun, nofun, h.handed⟩
    rw [h.iterates.hasNext_eq hsame] at hnext
    exact of_decide_eq_true hnext
  · exact ⟨h.iterates, nofun, h.unmodified, nofun, nofun, h.handed⟩
  · refine ⟨hit, nofun, h.unmodified, nofun, nofun, fun hclone => ?_⟩
    have hsource : s.source fired = fired := by
      rw [source, show s.clone = none from hclone]
    rw [hsource] at hobj
    have hhanded : s.handed = fired.take s.it.cursor := h.handed hclone
    show s.handed ++ [obj] = fired.take (s.it.cursor + 1)
    rw [hhanded, List.take_add_one, hobj]
    rfl
  · exact ⟨h.iterates, nofun, h.unmodified, fun _ => hclone, nofun, h.handed⟩
  · exact ⟨h.iterates, nofun, h.unmodified, nofun, nofun, h.handed⟩
  · refine ⟨iterates_iterator _, nofun, fun clone hclone => ?_, nofun, nofun, nofun⟩
    obtain rfl := Option.some.inj hclone
    rfl

/-- Every run is sound. -/
theorem sound_run {handlers : ArrayList L} {acts : List (Action L)}
    (hrun : run (step rt) (fireEvent handlers) acts = some s) : Sound handlers.elements s :=
  run_invariant (fun _ _ _ h hs => sound_step h hs) (sound_fireEvent handlers) hrun

/-- As long as the delivery is not over the loop can go on. -/
theorem loop_isSome (hpc : s.pc ≠ .returned) (hthrew : s.pc ≠ .threw) :
    (step rt s .loop).isSome := by
  unfold step loop
  cases h : s.pc with
  | hasNext => rfl
  | next =>
    simp only
    split
    · rfl
    · rfl
    · rfl
  | onEvent => rfl
  | catchModification => rfl
  | returned => exact absurd h hpc
  | threw => exact absurd h hthrew

/-! ## The delivery comes to an end -/

/-- The turns that are left, if nothing is modified any more. -/
def turnsLeft (fired : List L) (s : Delivery L) : Nat :=
  3 * ((s.source fired).length - s.it.cursor) +
    match s.pc with
    | .onEvent => 3
    | .hasNext => 2
    | .next => 1
    | .catchModification => 0
    | .returned => 0
    | .threw => 0

/-- What decreases: the loop starts over once. -/
def progress (fired : List L) (s : Delivery L) : Nat ×ₗ Nat :=
  toLex (if s.clone.isSome then 0 else 1, s.turnsLeft fired)

/-- A turn decreases the measure; what the others do does not change it. -/
theorem Sound.progress_step (h : Sound fired s) {a : Action L} (hs : step rt s a = some t) :
    (a = .loop → progress fired t < progress fired s) ∧ progress fired t ≤ progress fired s := by
  have hturn : ∀ u : Delivery L, u.clone = s.clone → u.turnsLeft fired < s.turnsLeft fired →
      progress fired u < progress fired s := by
    intro u hclone hlt
    unfold progress
    rw [hclone]
    exact Prod.Lex.toLex_lt_toLex.mpr (.inr ⟨rfl, hlt⟩)
  have hdecrease : a = .loop → progress fired t < progress fired s := by
    intro ha
    rcases h.step_cases hs with ⟨l, -, hne, -⟩ | ⟨-, hpc, hnext, rfl⟩ | ⟨-, hpc, -, rfl⟩ |
      ⟨-, hpc, obj, hobj, hit, rfl⟩ | ⟨-, hpc, hclone, rfl⟩ | ⟨-, hpc, rfl⟩ | ⟨-, hpc, hclone, rfl⟩
    · exact absurd ha hne
    · refine hturn _ rfl ?_
      simp [turnsLeft, source, hpc]
    · refine hturn _ rfl ?_
      simp [turnsLeft, source, hpc]
    · refine hturn _ rfl ?_
      have hcursor : s.it.cursor < (s.source fired).length :=
        (List.getElem?_eq_some_iff.mp hobj).1
      simp only [turnsLeft, source, hpc] at hcursor ⊢
      omega
    · refine hturn _ rfl ?_
      simp [turnsLeft, source, hpc]
    · refine hturn _ rfl ?_
      simp [turnsLeft, source, hpc]
    · refine Prod.Lex.toLex_lt_toLex.mpr (.inl ?_)
      simp [fireEvent0, hclone]
  refine ⟨hdecrease, ?_⟩
  by_cases ha : a = .loop
  · exact le_of_lt (hdecrease ha)
  · rcases h.step_cases hs with ⟨l, hl, -, -⟩ | ⟨hloop, -⟩ | ⟨hloop, -⟩ | ⟨hloop, -⟩ |
      ⟨hloop, -⟩ | ⟨hloop, -⟩ | ⟨hloop, -⟩
    · rcases hl with rfl | rfl
      · exact le_rfl
      · exact le_rfl
    all_goals exact absurd hloop ha

/-! ## Whom the event is handed to -/

/-- Nothing of a listener that never is registered is in the lists of the loop. -/
def Unknown (l : L) (s : Delivery L) : Prop :=
  l ∉ s.handed ∧ ∀ clone, s.clone = some clone → l ∉ clone.elements

/-- A listener that is not registered stays unknown. -/
theorem Sound.unknown_step (h : Sound fired s) {l : L} (hfired : l ∉ fired) (hu : Unknown l s)
    (hs' : l ∉ s.handlers.elements) {a : Action L} (hs : step rt s a = some t) : Unknown l t := by
  rcases h.step_cases hs with ⟨_, hl, -, -⟩ | ⟨-, -, -, rfl⟩ | ⟨-, -, -, rfl⟩ |
    ⟨-, -, obj, hobj, -, rfl⟩ | ⟨-, -, -, rfl⟩ | ⟨-, -, rfl⟩ | ⟨-, -, -, rfl⟩
  · rcases hl with rfl | rfl
    · exact hu
    · exact hu
  · exact hu
  · exact hu
  · refine ⟨fun hmem => ?_, hu.2⟩
    rcases List.mem_append.mp hmem with hold | hnew
    · exact hu.1 hold
    · obtain rfl := List.mem_singleton.mp hnew
      have hobj' := List.mem_of_getElem? hobj
      unfold source at hobj'
      split at hobj'
      · exact hfired hobj'
      · next clone hclone => exact hu.2 clone hclone hobj'
  · exact hu
  · exact hu
  · refine ⟨hu.1, fun clone hclone => ?_⟩
    obtain rfl := Option.some.inj hclone
    exact hs'

/-- How often the event has been and is going to be handed to a listener that always is
registered at least `lo` and at most `hi` times. -/
structure Served (fired : List L) (l : L) (lo hi : Nat) (s : Delivery L) : Prop where
  returned : s.pc = .returned → lo ≤ s.handed.count l
  least : ∀ clone, s.clone = some clone →
    lo ≤ s.handed.count l + (clone.elements.drop s.it.cursor).count l
  most : ∀ clone, s.clone = some clone →
    s.handed.count l + (clone.elements.drop s.it.cursor).count l ≤ hi

/-- The listeners before a cursor are among all. -/
theorem count_take_le (xs : List L) (n : Nat) (l : L) : (xs.take n).count l ≤ xs.count l :=
  (List.take_sublist n xs).count_le l

/-- **One clean step** serves a listener as it is registered. -/
theorem served_step {l : L} {lo hi : Nat} (hserved : Served fired l lo hi s)
    (h : Sound fired s) (hfired : lo ≤ fired.count l ∧ fired.count l ≤ hi)
    (hnow : lo ≤ s.handlers.elements.count l ∧ s.handlers.elements.count l ≤ hi)
    {a : Action L} (hclean : Clean fired rt s a) (hs : step rt s a = some t) :
    Served fired l lo hi t := by
  rcases h.step_cases hs with ⟨_, hl, -, hpc⟩ | ⟨-, -, -, rfl⟩ | ⟨rfl, hpc, hnext, rfl⟩ |
    ⟨-, -, obj, hobj, -, rfl⟩ | ⟨-, -, -, rfl⟩ | ⟨-, -, rfl⟩ | ⟨rfl, hpc, hclone, rfl⟩
  · rcases hl with rfl | rfl
    · exact ⟨hserved.returned, hserved.least, hserved.most⟩
    · exact ⟨hserved.returned, hserved.least, hserved.most⟩
  · exact ⟨nofun, hserved.least, hserved.most⟩
  · refine ⟨fun _ => ?_, hserved.least, hserved.most⟩
    cases hclone : s.clone with
    | none =>
      -- nobody behind the cursor is registered
      have hbehind := hclean.2 hpc hclone (by rwa [iterated, hclone] at hnext)
      rw [h.handed hclone]
      by_cases hmem : l ∈ fired.drop s.it.cursor
      · have hzero := List.count_eq_zero.mpr (hbehind l hmem)
        rw [hzero] at hnow
        exact hnow.1.trans (Nat.zero_le _)
      · have hall : (fired.take s.it.cursor ++ fired.drop s.it.cursor).count l =
            (fired.take s.it.cursor).count l + (fired.drop s.it.cursor).count l :=
          List.count_append
        rw [List.take_append_drop, List.count_eq_zero.mpr hmem, Nat.add_zero] at hall
        rw [← hall]
        exact hfired.1
    | some clone =>
      have hall := hserved.least clone hclone
      have hsame : s.iterated.modCount = s.it.expectedModCount := by
        rw [iterated, hclone]
        exact h.unmodified clone hclone
      have hsource : s.source fired = clone.elements := by rw [source, hclone]
      rw [h.iterates.hasNext_eq hsame, hsource] at hnext
      rw [List.drop_eq_nil_of_le (Nat.le_of_not_lt (of_decide_eq_false hnext))] at hall
      exact hall
  · have hcount : ∀ clone : ArrayList L, s.clone = some clone →
        (s.handed ++ [obj]).count l + (clone.elements.drop (s.it.cursor + 1)).count l =
          s.handed.count l + (clone.elements.drop s.it.cursor).count l := by
      intro clone hclone
      have hsource : s.source fired = clone.elements := by rw [source, hclone]
      rw [hsource] at hobj
      obtain ⟨hlt, rfl⟩ := List.getElem?_eq_some_iff.mp hobj
      rw [List.drop_eq_getElem_cons hlt, List.count_append, List.count_cons, List.count_cons,
        List.count_nil]
      omega
    refine ⟨nofun, fun clone hclone => ?_, fun clone hclone => ?_⟩
    · exact (hcount clone hclone).symm ▸ hserved.least clone hclone
    · exact (hcount clone hclone).symm ▸ hserved.most clone hclone
  · exact ⟨nofun, hserved.least, hserved.most⟩
  · exact ⟨nofun, hserved.least, hserved.most⟩
  · -- nobody before the cursor is in the copy
    have hbefore := hclean.1 hpc
    have hhanded := h.handed hclone
    have htotal : lo ≤ s.handed.count l + s.handlers.elements.count l ∧
        s.handed.count l + s.handlers.elements.count l ≤ hi := by
      by_cases hmem : l ∈ s.handed
      · have hnone : s.handlers.elements.count l = 0 :=
          List.count_eq_zero.mpr (hbefore l (hhanded ▸ hmem))
        have hle := count_take_le fired s.it.cursor l
        rw [← hhanded] at hle
        omega
      · rw [List.count_eq_zero.mpr hmem, Nat.zero_add]
        exact hnow
    refine ⟨nofun, fun clone hcopy => ?_, fun clone hcopy => ?_⟩
    · obtain rfl := Option.some.inj hcopy
      exact htotal.1
    · obtain rfl := Option.some.inj hcopy
      exact htotal.2

/-- **The handing of an event.** In every delivery no exception gets out, the loop comes to its
end, and the event is handed to no listener that is not registered. In a delivery all of whose
turns are clean a listener that always is registered at least `lo` and at most `hi` times is
handed it at most `hi` times, and at least `lo` times by the end: exactly once, when it always
is registered once.
SOURCE: EventBus.java:95-118, 129-152 -/
theorem delivered_as_registered {handlers : ArrayList L} {acts : List (Action L)}
    (hrun : run (step rt) (fireEvent handlers) acts = some s) :
    s.pc ≠ .threw ∧ (s.pc ≠ .returned → (step rt s .loop).isSome) ∧
      (∀ (ss : Nat → Delivery L) (as : Nat → Action L), ss 0 = fireEvent handlers →
        (∀ n, step rt (ss n) (as n) = some (ss (n + 1))) → ∃ n, ∀ m, n ≤ m → as m ≠ .loop) ∧
      (∀ l, Throughout (step rt) (fun u => l ∉ u.handlers.elements) (fireEvent handlers) acts →
        l ∉ s.handed) ∧
      (run (restrict (step rt) (Clean handlers.elements rt)) (fireEvent handlers) acts = some s →
        ∀ l lo hi, Throughout (step rt) (fun u => lo ≤ u.handlers.elements.count l ∧
            u.handlers.elements.count l ≤ hi) (fireEvent handlers) acts →
          s.handed.count l ≤ hi ∧ (s.pc = .returned → lo ≤ s.handed.count l)) := by
  have hsound := sound_run hrun
  refine ⟨hsound.notThrown, fun hpc => loop_isSome hpc hsound.notThrown, ?_, ?_, ?_⟩
  · intro ss as hs hsteps
    have hstart : Sound handlers.elements (ss 0) := by
      rw [hs]
      exact sound_fireEvent handlers
    exact @eventually_never _ _ _ _ _ (step rt) (Sound handlers.elements)
      (progress handlers.elements) (fun a => a = .loop) (fun _ _ _ h hs => sound_step h hs)
      (fun _ _ _ h hs => (h.progress_step hs).2) (fun _ _ _ h ha hs => (h.progress_step hs).1 ha)
      ss as hstart hsteps
  · intro l hnever
    have hfired : l ∉ handlers.elements := hnever.head
    have hstep : ∀ u a v, Sound handlers.elements u ∧ Unknown l u → l ∉ u.handlers.elements →
        l ∉ v.handlers.elements → step rt u a = some v →
        Sound handlers.elements v ∧ Unknown l v :=
      fun u a v h hu _ hs => ⟨sound_step h.1 hs, h.1.unknown_step hfired h.2 hu hs⟩
    have hstart : Sound handlers.elements (fireEvent handlers) ∧
        Unknown l (fireEvent handlers) :=
      ⟨sound_fireEvent handlers, List.not_mem_nil, nofun⟩
    exact (run_throughout_invariant hstep hstart hnever hrun).1.2.1
  · intro hclean l lo hi halways
    have hfired : lo ≤ handlers.elements.count l ∧ handlers.elements.count l ≤ hi :=
      halways.head
    have hstep : ∀ u a v, Sound handlers.elements u ∧ Served handlers.elements l lo hi u →
        (lo ≤ u.handlers.elements.count l ∧ u.handlers.elements.count l ≤ hi) →
        (lo ≤ v.handlers.elements.count l ∧ v.handlers.elements.count l ≤ hi) →
        restrict (step rt) (Clean handlers.elements rt) u a = some v →
        Sound handlers.elements v ∧ Served handlers.elements l lo hi v := by
      intro u a v h hu _ hs
      obtain ⟨hc, hs⟩ := restrict_eq_some.mp hs
      exact ⟨sound_step h.1 hs, served_step h.2 h.1 hfired hu hc hs⟩
    have hstart : Sound handlers.elements (fireEvent handlers) ∧
        Served handlers.elements l lo hi (fireEvent handlers) :=
      ⟨sound_fireEvent handlers, nofun, nofun, nofun⟩
    obtain ⟨⟨-, hserved⟩, -⟩ :=
      run_throughout_invariant hstep hstart (halways.restrict _) hclean
    refine ⟨?_, hserved.returned⟩
    cases hclone : s.clone with
    | none =>
      rw [hsound.handed hclone]
      exact (count_take_le _ _ l).trans hfired.2
    | some clone => exact (Nat.le_add_right _ _).trans (hserved.most clone hclone)

/-- The first of two listeners takes itself off the list when it is handed the event. -/
def leaveOnEvent : List (Action Nat) :=
  [.loop, .loop, .unregisterListener 0] ++ List.replicate 8 .loop

/-- The loop starts over, with the second listener alone, which is handed the event once. -/
theorem delivered_as_registered_leaving :
    ∃ s, run (step .limit) (fireEvent (ArrayList.ofList [0, 1])) leaveOnEvent = some s ∧
      s.pc = .returned ∧ s.handed.count 1 ≤ 1 ∧ 1 ≤ s.handed.count 1 := by
  have hrun : (run (restrict (step .limit) (Clean [0, 1] .limit))
      (fireEvent (ArrayList.ofList [0, 1])) leaveOnEvent).any (fun s => s.pc = .returned) =
        true := by
    decide +kernel
  have halways : Throughout (step .limit) (fun u : Delivery Nat =>
      1 ≤ u.handlers.elements.count 1 ∧ u.handlers.elements.count 1 ≤ 1)
      (fireEvent (ArrayList.ofList [0, 1])) leaveOnEvent := by
    decide +kernel
  obtain ⟨s, hs, hpc⟩ := (Option.any_eq_true _ _).mp hrun
  have hplain := run_of_run_restrict hs
  obtain ⟨hmost, hleast⟩ := (delivered_as_registered hplain).2.2.2.2 hs 1 1 1 halways
  exact ⟨s, hplain, of_decide_eq_true hpc, hmost, hleast (of_decide_eq_true hpc)⟩

/-- A third listener is registered when the first has been handed the event. -/
def joinOnEvent : List (Action Nat) :=
  [.loop, .loop, .registerListener 2] ++ List.replicate 14 .loop

/-- The first listener is handed the event twice, on either kind of iterator.
SOURCE: EventBus.java:136-141 -/
theorem delivered_twice :
    ¬∃ rt, ∀ (handlers : ArrayList Nat) acts s,
      run (step rt) (fireEvent handlers) acts = some s → s.pc = .returned → ∀ l,
        Throughout (step rt) (fun u => u.handlers.elements.count l = 1) (fireEvent handlers)
          acts → s.handed.count l = 1 := by
  rintro ⟨rt, h⟩
  have hrun : ∀ rt, (run (step rt) (fireEvent (ArrayList.ofList [0, 1])) joinOnEvent).any
      (fun s => s.pc = .returned ∧ s.handed = [0, 0, 1, 2]) = true := by
    intro rt
    cases rt with
    | size => decide +kernel
    | limit => decide +kernel
  have halways : ∀ rt, Throughout (step rt) (fun u : Delivery Nat =>
      u.handlers.elements.count 0 = 1) (fireEvent (ArrayList.ofList [0, 1])) joinOnEvent := by
    intro rt
    cases rt with
    | size => decide +kernel
    | limit => decide +kernel
  obtain ⟨s, hs, hend⟩ := (Option.any_eq_true _ _).mp (hrun rt)
  obtain ⟨hpc, hhanded⟩ := of_decide_eq_true hend
  have hone := h _ _ s hs hpc 0 (halways rt)
  rw [hhanded] at hone
  cases hone

end Delivery

end Cream.Model
