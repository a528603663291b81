import Mathlib.Algebra.Order.Floor.Ring
import Mathlib.Data.Int.ConditionallyCompleteOrder
import Mathlib.Tactic.Linarith
import Mathlib.Tactic.Positivity

/-!
# Rounding to the nearest integer, ties to even

`roundHalfEven` is the rounding IEEE-754 prescribes and the one Python's `round` and NumPy's
`rint` use. It is stated over any ordered field with a floor, so the same definition runs on the
rationals and reads as mathematics on the reals.

* **`roundHalfEven_intCast`** — an integer rounds to itself;
* **`roundHalfEven_mono`** — rounding is monotone;
* **`roundHalfEven_le`** — a value at most an integer rounds to at most that integer.
-/

-- the literal `2` of a field
instance atLeastTwo_two : Nat.AtLeastTwo 2 := ⟨le_rfl⟩

variable {K : Type*} [Field K] [LinearOrder K] [FloorRing K]

/-- The integer nearest to `x`; of two equally near ones, the even one. -/
def roundHalfEven (x : K) : ℤ :=
  let f := ⌊x⌋
  if 2 * (x - f) < 1 then f
  else if 1 < 2 * (x - f) then f + 1
  else if f % 2 = 0 then f else f + 1

/-- The rounded value is the floor or the integer above it. -/
theorem floor_le_roundHalfEven (x : K) : ⌊x⌋ ≤ roundHalfEven x := by
  unfold roundHalfEven
  dsimp only
  split_ifs <;> omega

theorem roundHalfEven_le_floor_add_one (x : K) : roundHalfEven x ≤ ⌊x⌋ + 1 := by
  unfold roundHalfEven
  dsimp only
  split_ifs <;> omega

variable [IsStrictOrderedRing K]

@[simp] theorem roundHalfEven_intCast (z : ℤ) : roundHalfEven (z : K) = z := by
  simp [roundHalfEven]

@[simp] theorem roundHalfEven_natCast (n : ℕ) : roundHalfEven (n : K) = n := by
  exact_mod_cast roundHalfEven_intCast (K := K) n

/-- The result is at most one half above its argument. -/
theorem two_mul_roundHalfEven_le (x : K) : 2 * (roundHalfEven x : K) ≤ 2 * x + 1 := by
  have hf : (⌊x⌋ : K) ≤ x := Int.floor_le x
  unfold roundHalfEven
  dsimp only
  split_ifs with h1 h2 h3 <;> push_cast <;> linarith

/-- **Rounding is monotone.** Across different floors the values are ordered by the floors; on one
floor the three branches are ordered by the fractional part. -/
theorem roundHalfEven_mono : Monotone (roundHalfEven : K → ℤ) := by
  intro x y hxy
  have hfl : ⌊x⌋ ≤ ⌊y⌋ := Int.floor_mono hxy
  rcases hfl.lt_or_eq with hlt | heq
  · have h1 := roundHalfEven_le_floor_add_one x
    have h2 := floor_le_roundHalfEven y
    omega
  · unfold roundHalfEven
    rw [heq]
    dsimp only
    split_ifs <;> first | omega | (exfalso; linarith)

/-- A value at most an integer rounds to at most that integer. -/
theorem roundHalfEven_le {z : ℤ} {x : K} (h : x ≤ (z : K)) : roundHalfEven x ≤ z := by
  simpa using roundHalfEven_mono h
