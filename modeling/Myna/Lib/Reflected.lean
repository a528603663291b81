import Mathlib.Algebra.BigOperators.Group.Finset.Basic
import Mathlib.Algebra.Order.Group.Defs
import Mathlib.Tactic.Abel

/-!
# Reflected sums

A running sum that is held above a floor which may move from step to step: what is below the floor
is written off for good.

* **`sum`** — the sum, step by step;
* **`largest`** — the same without its history: the largest of the free sum and of what is left of
  it since each step at which the floor might have held it;
* **`sum_eq_largest`** — they agree.
-/

namespace Reflected

variable {α : Type*} [AddCommGroup α] [LinearOrder α]

/-- The sum of the steps `x`, held at or above `-c n` after step `n`. -/
def sum (x c : ℕ → α) : ℕ → α
  | 0 => 0
  | n + 1 => max (sum x c n + x n) (-c n)

/-- The sum with no floor. -/
def free (x : ℕ → α) (n : ℕ) : α := ∑ i ∈ Finset.range n, x i

/-- The largest of the free sum, and of what it has grown by since each step, less the bound
there. -/
def largest (x c : ℕ → α) (n : ℕ) : α :=
  ((List.range n).map fun j => free x n - free x (j + 1) - c j).foldr max (free x n)

variable {x c : ℕ → α}

omit [LinearOrder α] in
theorem free_succ (x : ℕ → α) (n : ℕ) : free x (n + 1) = free x n + x n :=
  Finset.sum_range_succ _ _

omit [AddCommGroup α] in
theorem foldr_max_le_iff {l : List α} {a b : α} :
    l.foldr max a ≤ b ↔ a ≤ b ∧ ∀ y ∈ l, y ≤ b := by
  induction l with
  | nil => simp
  | cons y l ih =>
    rw [List.foldr_cons, max_le_iff, ih, List.forall_mem_cons]
    exact and_left_comm

theorem largest_le_iff {n : ℕ} {b : α} :
    largest x c n ≤ b ↔ free x n ≤ b ∧ ∀ j < n, free x n - free x (j + 1) - c j ≤ b := by
  unfold largest
  rw [foldr_max_le_iff]
  simp

section Ordered

variable [IsOrderedAddMonoid α]

/-- **A reflected sum is told from its history.** Induction on the steps: bounded above by the same
numbers. -/
theorem sum_eq_largest (x c : ℕ → α) (n : ℕ) : sum x c n = largest x c n := by
  refine eq_of_forall_ge_iff fun b => ?_
  rw [largest_le_iff]
  induction n generalizing b with
  | zero => simp [sum, free]
  | succ n ih =>
    rw [sum, max_le_iff, ← le_sub_iff_add_le, ih (b - x n)]
    have hlast : free x (n + 1) - free x (n + 1) - c n = -c n := by abel
    have hshift : ∀ j, free x n - free x (j + 1) - c j ≤ b - x n ↔
        free x (n + 1) - free x (j + 1) - c j ≤ b := by
      intro j
      rw [le_sub_iff_add_le, free_succ x n]
      exact iff_of_eq (congrArg (· ≤ b) (by abel))
    constructor
    · rintro ⟨⟨hfree, hsince⟩, hfloor⟩
      refine ⟨by rw [free_succ]; exact le_sub_iff_add_le.mp hfree, fun j hj => ?_⟩
      rcases Nat.lt_succ_iff_lt_or_eq.mp hj with hj | rfl
      · exact (hshift j).mp (hsince j hj)
      · rw [hlast]
        exact hfloor
    · rintro ⟨hfree, hsince⟩
      refine ⟨⟨le_sub_iff_add_le.mpr (by rw [← free_succ]; exact hfree), fun j hj => ?_⟩, ?_⟩
      · exact (hshift j).mpr (hsince j (Nat.lt_succ_of_lt hj))
      · rw [← hlast]
        exact hsince n (Nat.lt_succ_self n)

end Ordered

end Reflected
