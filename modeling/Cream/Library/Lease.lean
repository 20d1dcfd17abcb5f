import Mathlib.Data.Set.Insert
import Mathlib.Data.List.Basic

/-!
# Leases handed out through a work queue

Parties `ι` hold resources `κ`. Acquiring and releasing is not done at once but queued:
`after ops held` is who holds what once the queued operations have run. `Safe held ops`
says that no resource is ever held by two parties, now or after any part of the queue.

A scheduler that keeps a register of the resources in use keeps `Safe` with one rule:
hand out only a resource that nobody else holds at the *end* of the queue
(`Safe.acquire`). Whatever is freed in the register but not yet in fact is then released
by an operation that stands before the new one.
-/

set_option autoImplicit false

namespace Cream.Library.Lease

variable {ι κ : Type*}

/-- A queued operation of one party. -/
inductive Op (ι κ : Type*) where
  | acquire (i : ι) (k : κ)
  | release (i : ι)

/-- Who holds what after one operation; a release gives back all a party holds. -/
def Op.apply : Op ι κ → Set (ι × κ) → Set (ι × κ)
  | .acquire i k, held => insert (i, k) held
  | .release i, held => {p ∈ held | p.1 ≠ i}

/-- Who holds what after a list of operations. -/
def after : List (Op ι κ) → Set (ι × κ) → Set (ι × κ)
  | [], held => held
  | op :: ops, held => after ops (op.apply held)

/-- No resource is held by two parties. -/
def Exclusive (held : Set (ι × κ)) : Prop :=
  ∀ i j k, (i, k) ∈ held → (j, k) ∈ held → i = j

/-- No resource is held by two parties, before and after every queued operation. -/
def Safe : List (Op ι κ) → Set (ι × κ) → Prop
  | [], held => Exclusive held
  | op :: ops, held => Exclusive held ∧ Safe ops (op.apply held)

/-- What is held after an acquisition. -/
@[simp] theorem mem_apply_acquire {i j : ι} {k l : κ} {held : Set (ι × κ)} :
    (j, l) ∈ (Op.acquire i k).apply held ↔ (j = i ∧ l = k) ∨ (j, l) ∈ held := by
  simp [Op.apply]

/-- What is held after a release. -/
@[simp] theorem mem_apply_release {i j : ι} {l : κ} {held : Set (ι × κ)} :
    (j, l) ∈ (Op.release i : Op ι κ).apply held ↔ (j, l) ∈ held ∧ j ≠ i := by
  simp [Op.apply]

/-- The queue is run from its head. -/
theorem after_append (ops ops' : List (Op ι κ)) (held : Set (ι × κ)) :
    after (ops ++ ops') held = after ops' (after ops held) := by
  induction ops generalizing held with
  | nil => rfl
  | cons op ops ih => exact ih (op.apply held)

/-- Holding less at first is holding less after each operation. -/
theorem Op.apply_mono (op : Op ι κ) {held held' : Set (ι × κ)} (h : held ⊆ held') :
    op.apply held ⊆ op.apply held' := by
  cases op with
  | acquire i k => exact Set.insert_subset_insert h
  | release i => exact fun p hp => ⟨h hp.1, hp.2⟩

/-- Holding less at first is holding less at the end of the queue. -/
theorem after_mono (ops : List (Op ι κ)) {held held' : Set (ι × κ)} (h : held ⊆ held') :
    after ops held ⊆ after ops held' := by
  induction ops generalizing held held' with
  | nil => exact h
  | cons op ops ih => exact ih (op.apply_mono h)

/-- A party that does not acquire ends up with nothing it did not hold at first. -/
theorem mem_of_mem_after {ops : List (Op ι κ)} {held : Set (ι × κ)} {i : ι} {k : κ}
    (hops : ∀ l, Op.acquire i l ∉ ops) (h : (i, k) ∈ after ops held) : (i, k) ∈ held := by
  induction ops generalizing held with
  | nil => exact h
  | cons op ops ih =>
    have hstep := ih (fun l hl => hops l (List.mem_cons_of_mem _ hl)) h
    cases op with
    | acquire j l =>
      rcases mem_apply_acquire.mp hstep with ⟨rfl, -⟩ | hheld
      · exact absurd List.mem_cons_self (hops l)
      · exact hheld
    | release j => exact (mem_apply_release.mp hstep).1

/-- A party that does not release keeps what it holds. -/
theorem mem_after_of_mem {ops : List (Op ι κ)} {held : Set (ι × κ)} {i : ι} {k : κ}
    (hops : Op.release i ∉ ops) (h : (i, k) ∈ held) : (i, k) ∈ after ops held := by
  induction ops generalizing held with
  | nil => exact h
  | cons op ops ih =>
    refine ih (fun hmem => hops (List.mem_cons_of_mem _ hmem)) ?_
    cases op with
    | acquire j l => exact mem_apply_acquire.mpr (.inr h)
    | release j =>
      refine mem_apply_release.mpr ⟨h, ?_⟩
      rintro rfl
      exact hops List.mem_cons_self

/-- A party that does not release ends up with what it acquires. -/
theorem mem_after_of_acquire {ops : List (Op ι κ)} {held : Set (ι × κ)} {i : ι} {k : κ}
    (hops : Op.release i ∉ ops) (h : Op.acquire i k ∈ ops) : (i, k) ∈ after ops held := by
  obtain ⟨pre, post, rfl⟩ := List.append_of_mem h
  rw [after_append]
  have hgot : (i, k) ∈ (Op.acquire i k).apply (after pre held) :=
    mem_apply_acquire.mpr (.inl ⟨rfl, rfl⟩)
  have hpost : Op.release i ∉ post := fun hmem =>
    hops (List.mem_append_right _ (List.mem_cons_of_mem _ hmem))
  show (i, k) ∈ after post _
  exact mem_after_of_mem hpost hgot

/-- After its release, and with no later acquisition, a party ends up with nothing. -/
theorem not_mem_after_release {pre post : List (Op ι κ)} {held : Set (ι × κ)} {i : ι}
    (hpost : ∀ l, Op.acquire i l ∉ post) (k : κ) :
    (i, k) ∉ after (pre ++ .release i :: post) held := by
  intro h
  rw [after_append] at h
  exact (mem_apply_release.mp (mem_of_mem_after hpost h)).2 rfl

/-- A safe queue starts from an exclusive holding. -/
theorem Safe.exclusive {ops : List (Op ι κ)} {held : Set (ι × κ)} (h : Safe ops held) :
    Exclusive held := by
  cases ops with
  | nil => exact h
  | cons op ops => exact h.1

/-- Running the head of a safe queue leaves it safe. -/
theorem Safe.tail {op : Op ι κ} {ops : List (Op ι κ)} {held : Set (ι × κ)}
    (h : Safe (op :: ops) held) : Safe ops (op.apply held) :=
  h.2

/-- Holding less at first keeps a queue safe. -/
theorem Safe.mono {ops : List (Op ι κ)} {held held' : Set (ι × κ)} (h : Safe ops held')
    (hsub : held ⊆ held') : Safe ops held := by
  have hexcl : ∀ {held held' : Set (ι × κ)}, held ⊆ held' → Exclusive held' →
      Exclusive held := fun hs he i j k hi hj => he i j k (hs hi) (hs hj)
  induction ops generalizing held held' with
  | nil => exact hexcl hsub h
  | cons op ops ih => exact ⟨hexcl hsub h.1, ih h.2 (op.apply_mono hsub)⟩

/-- A release may be queued at any time. -/
theorem Safe.release {ops : List (Op ι κ)} {held : Set (ι × κ)} (h : Safe ops held)
    (i : ι) : Safe (ops ++ [.release i]) held := by
  induction ops generalizing held with
  | nil =>
    refine ⟨h, fun a b k ha hb => ?_⟩
    exact h a b k (mem_apply_release.mp ha).1 (mem_apply_release.mp hb).1
  | cons op ops ih => exact ⟨h.1, ih h.2⟩

/-- **The scheduling rule**: a resource that no other party holds at the end of the queue
may be handed out there. -/
theorem Safe.acquire {ops : List (Op ι κ)} {held : Set (ι × κ)} (h : Safe ops held)
    {i : ι} {k : κ} (hfree : ∀ j, (j, k) ∈ after ops held → j = i) :
    Safe (ops ++ [.acquire i k]) held := by
  induction ops generalizing held with
  | nil =>
    refine ⟨h, fun a b l ha hb => ?_⟩
    rw [mem_apply_acquire] at ha hb
    rcases ha with ⟨rfl, rfl⟩ | ha <;> rcases hb with ⟨rfl, hl⟩ | hb
    · rfl
    · exact (hfree b hb).symm
    · exact hfree a (hl ▸ ha)
    · exact h a b l ha hb
  | cons op ops ih => exact ⟨h.1, ih h.2 hfree⟩

end Cream.Library.Lease
