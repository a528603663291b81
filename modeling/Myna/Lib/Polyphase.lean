import Mathlib.Algebra.BigOperators.Finprod
import Mathlib.Algebra.Order.Group.Int
import Mathlib.Data.Int.ConditionallyCompleteOrder
import Mathlib.Data.Int.Interval
import Mathlib.Order.Interval.Finset.Basic
import Mathlib.Tactic.Linarith

/-!
# Polyphase filters — a rate change as sums over a window of the input

Raising a signal by `up`, filtering it with the taps `h` and keeping every `down`-th value gives,
for output `k`, the sum of `x n * h (k * down + delay - n * up)` over all inputs `n`. Only the
inputs from `firstIn` on meet a tap, and only a bounded number of them.

* **`ceilDiv`** — division rounding up, with its two order lemmas;
* **`sum_Ico_eq_sum_Ico`** — two windows that both hold the support of a sum give the same sum;
* **`firstIn`** — the first input that meets a tap, and how far the window reaches.
-/

namespace Polyphase

/-! ## Division rounding up -/

/-- The quotient rounded up, as `-(-a // b)`. -/
def ceilDiv (a b : ℤ) : ℤ := -(-a / b)

theorem ceilDiv_le_iff {a b c : ℤ} (hb : 0 < b) : ceilDiv a b ≤ c ↔ a ≤ c * b := by
  rw [ceilDiv, neg_le, Int.le_ediv_iff_mul_le hb, neg_mul, neg_le_neg_iff]

theorem lt_ceilDiv_iff {a b c : ℤ} (hb : 0 < b) : c < ceilDiv a b ↔ c * b < a := by
  rw [← not_le, ceilDiv_le_iff hb, not_le]

theorem ceilDiv_mono {a a' b : ℤ} (hb : 0 < b) (h : a ≤ a') : ceilDiv a b ≤ ceilDiv a' b :=
  (ceilDiv_le_iff hb).mpr (h.trans ((ceilDiv_le_iff hb).mp le_rfl))

/-- A value is the rounded quotient when the dividend lies in the last step below it. -/
theorem ceilDiv_eq {a b c : ℤ} (hb : 0 < b) (hlo : (c - 1) * b < a) (hhi : a ≤ c * b) :
    ceilDiv a b = c := by
  have hle := (ceilDiv_le_iff hb).mpr hhi
  have hlt := (lt_ceilDiv_iff hb).mpr hlo
  omega

/-! ## Sums over a window -/

variable {K : Type*}

/-- Two windows that both hold the support of a sum give the same sum. -/
theorem sum_Ico_eq_sum_Ico [AddCommMonoid K] {f : ℤ → K} {lo hi lo' hi' : ℤ}
    (h : ∀ n, f n ≠ 0 → lo ≤ n ∧ n < hi) (h' : ∀ n, f n ≠ 0 → lo' ≤ n ∧ n < hi') :
    ∑ n ∈ Finset.Ico lo hi, f n = ∑ n ∈ Finset.Ico lo' hi', f n := by
  rw [← finsum_eq_sum_of_support_subset f (s := Finset.Ico lo hi),
    finsum_eq_sum_of_support_subset f (s := Finset.Ico lo' hi')]
  · intro n hn
    simpa using h' n hn
  · intro n hn
    simpa using h n hn

/-- A sum over a window as the list of its terms. -/
theorem sum_map_range [AddCommMonoid K] (f : ℤ → K) (lo : ℤ) (n : ℕ) :
    ((List.range n).map fun i : ℕ => f (lo + i)).sum = ∑ m ∈ Finset.Ico lo (lo + n), f m := by
  induction n with
  | zero => simp
  | succ n ih =>
    rw [List.range_succ, List.map_append, List.sum_append, ih]
    have hsplit : Finset.Ico lo (lo + (n + 1 : ℕ)) = insert (lo + n) (Finset.Ico lo (lo + n)) := by
      ext m
      simp only [Finset.mem_Ico, Finset.mem_insert]
      push_cast
      omega
    rw [hsplit, Finset.sum_insert (by simp), add_comm]
    simp

theorem sum_range_eq_sum_Ico [AddCommMonoid K] (f : ℤ → K) (n : ℕ) :
    ∑ i ∈ Finset.range n, f i = ∑ m ∈ Finset.Ico (0 : ℤ) n, f m := by
  have hlist := sum_map_range f 0 n
  simp only [zero_add] at hlist
  exact hlist

/-! ## The inputs of an output -/

/-- The first input that meets a tap of output `k`, of `taps` taps delayed by `delay`. -/
def firstIn (up down delay taps k : ℤ) : ℤ := ceilDiv (k * down + delay - taps + 1) up

/-- From `firstIn` on, inputs lie below the last tap; before it, past it. -/
theorem firstIn_le_iff {up down delay taps k n : ℤ} (hup : 0 < up) :
    firstIn up down delay taps k ≤ n ↔ k * down + delay - n * up < taps := by
  rw [firstIn, ceilDiv_le_iff hup]
  constructor <;> intro h <;> linarith

theorem firstIn_mono {up down delay taps k k' : ℤ} (hup : 0 < up) (hdown : 0 ≤ down) (h : k ≤ k') :
    firstIn up down delay taps k ≤ firstIn up down delay taps k' := by
  refine ceilDiv_mono hup ?_
  have := mul_le_mul_of_nonneg_right h hdown
  linarith

/-- An input that meets a tap lies in the window of `ceilDiv taps up` inputs from `firstIn` on. -/
theorem lt_firstIn_add {up down delay taps k n : ℤ} (hup : 0 < up)
    (h : 0 ≤ k * down + delay - n * up) :
    n < firstIn up down delay taps k + ceilDiv taps up := by
  have hfirst : k * down + delay - firstIn up down delay taps k * up < taps :=
    (firstIn_le_iff hup).mp le_rfl
  have hcount := (ceilDiv_le_iff hup).mp (le_refl (ceilDiv taps up))
  have hmul : n * up < (firstIn up down delay taps k + ceilDiv taps up) * up := by
    rw [add_mul]
    linarith
  exact lt_of_mul_lt_mul_right hmul hup.le

end Polyphase
