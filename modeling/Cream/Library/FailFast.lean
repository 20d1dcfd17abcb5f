import Mathlib.Data.List.Basic

/-!
# Array lists and their fail-fast iterators

An array list counts its modifications. An iterator remembers the count it was made with, and
`next` throws once the count is another. `hasNext` does not look at the count: it compares the
cursor with the size of the list, with the one at that moment or with the one the iterator was
made with (`HasNext`), so on a modified list it may end the iteration instead.
`Iterates` is what an iterator made on a list knows of it later.
-/

set_option autoImplicit false

namespace Cream.Library.FailFast

variable {α : Type*}

structure ArrayList (α : Type*) where
  elements : List α
  modCount : Nat

namespace ArrayList

/-- A new array list with the elements of a collection. -/
def ofList (xs : List α) : ArrayList α := ⟨xs, 0⟩

def add (xs : ArrayList α) (x : α) : ArrayList α := ⟨xs.elements ++ [x], xs.modCount + 1⟩

/-- Removes the first element that is equal to `x`, if there is one. -/
def remove [DecidableEq α] (xs : ArrayList α) (x : α) : ArrayList α :=
  if x ∈ xs.elements then ⟨xs.elements.erase x, xs.modCount + 1⟩ else xs

end ArrayList

structure Itr where
  cursor : Nat
  expectedModCount : Nat
  limit : Nat

/-- A new iterator over the list. -/
def ArrayList.iterator (xs : ArrayList α) : Itr := ⟨0, xs.modCount, xs.elements.length⟩

/-- What `hasNext` compares the cursor with. -/
inductive HasNext where
  /-- the size of the list now -/
  | size
  /-- the size of the list when the iterator was made -/
  | limit

/-- What `next` throws. -/
inductive Thrown where
  | concurrentModification
  | noSuchElement

namespace Itr

def hasNext (it : Itr) (xs : ArrayList α) : HasNext → Bool
  | .size => it.cursor ≠ xs.elements.length
  | .limit => it.cursor < it.limit

def next (it : Itr) (xs : ArrayList α) : Except Thrown (α × Itr) :=
  if xs.modCount ≠ it.expectedModCount then .error .concurrentModification
  else match xs.elements[it.cursor]? with
    | some x => .ok (x, { it with cursor := it.cursor + 1 })
    | none => .error .noSuchElement

end Itr

/-- `it` was made on the list when its elements were `ys`: as long as the count is the same,
these still are its elements. -/
structure Iterates (ys : List α) (it : Itr) (xs : ArrayList α) : Prop where
  limit : it.limit = ys.length
  cursor : it.cursor ≤ ys.length
  expected : it.expectedModCount ≤ xs.modCount
  same : xs.modCount = it.expectedModCount → xs.elements = ys

variable {ys : List α} {it : Itr} {xs : ArrayList α}

/-- A new iterator has everything before it. -/
theorem iterates_iterator (xs : ArrayList α) : Iterates xs.elements xs.iterator xs where
  limit := rfl
  cursor := Nat.zero_le _
  expected := Nat.le_refl _
  same _ := rfl

namespace Iterates

/-- The iterator of a list knows nothing of a list with a larger count. -/
theorem modified (h : Iterates ys it xs) {zs : List α} :
    Iterates ys it ⟨zs, xs.modCount + 1⟩ where
  limit := h.limit
  cursor := h.cursor
  expected := Nat.le_succ_of_le h.expected
  same heq := absurd heq (Nat.ne_of_gt (Nat.lt_succ_of_le h.expected))

/-- On an unmodified list both kinds of `hasNext` are right. -/
theorem hasNext_eq (h : Iterates ys it xs) (hsame : xs.modCount = it.expectedModCount)
    (rt : HasNext) : it.hasNext xs rt = decide (it.cursor < ys.length) := by
  have hle := h.cursor
  cases rt with
  | size =>
    unfold Itr.hasNext
    rw [h.same hsame]
    simp only [decide_eq_decide]
    omega
  | limit =>
    unfold Itr.hasNext
    rw [h.limit]

/-- What `next` returns is the element at the cursor. -/
theorem next_ok (h : Iterates ys it xs) {x : α} {it' : Itr} (hnext : it.next xs = .ok (x, it')) :
    xs.modCount = it.expectedModCount ∧ ys[it.cursor]? = some x ∧
      it' = { it with cursor := it.cursor + 1 } ∧ Iterates ys it' xs := by
  unfold Itr.next at hnext
  split at hnext
  · cases hnext
  · next hsame =>
    simp only [ne_eq, not_not] at hsame
    rw [h.same hsame] at hnext
    split at hnext
    · next y hy =>
      obtain ⟨rfl, rfl⟩ : y = x ∧ ({ it with cursor := it.cursor + 1 } : Itr) = it' := by
        simpa using hnext
      refine ⟨hsame, hy, rfl, h.limit, ?_, h.expected, h.same⟩
      exact (List.getElem?_eq_some_iff.mp hy).1
    · cases hnext

/-- `next` throws just when the list was modified, as long as there was an element left. -/
theorem next_error (h : Iterates ys it xs)
    (hleft : xs.modCount = it.expectedModCount → it.cursor < ys.length) {e : Thrown}
    (hnext : it.next xs = .error e) :
    e = .concurrentModification ∧ xs.modCount ≠ it.expectedModCount := by
  unfold Itr.next at hnext
  split at hnext
  · next hmod =>
    cases hnext
    exact ⟨rfl, hmod⟩
  · next hsame =>
    simp only [ne_eq, not_not] at hsame
    rw [h.same hsame, List.getElem?_eq_getElem (hleft hsame)] at hnext
    cases hnext

end Iterates

end Cream.Library.FailFast
