import Mathlib.Order.Lattice
import Mathlib.Order.MinMax
import Mathlib.Data.List.Basic

/-!
# Regions in order, without a gap

Half-open regions `[r.1, r.2)` of a linear order, collected one after the other: `Gapless lo rs hi`
says that they start at `lo`, that each one starts no later than the ones before it reach, and
that together they reach `hi`. Regions may overlap.

* **`Gapless.covers`** — everything from `lo` to `hi` lies in one of them;
* **`Gapless.stop_le`** — nothing from `hi` on does.
-/

variable {α : Type*} [LinearOrder α]

/-- The regions `rs` run from `lo` to `hi` without a gap. -/
inductive Gapless (lo : α) : List (α × α) → α → Prop
  | nil : Gapless lo [] lo
  | snoc {rs : List (α × α)} {mid : α} {r : α × α} :
      Gapless lo rs mid → r.1 ≤ mid → mid ≤ r.2 → Gapless lo (rs ++ [r]) r.2

namespace Gapless

variable {lo hi : α} {rs : List (α × α)}

/-- **Regions without a gap cover what they span.** Induction from the last region back. -/
theorem covers (h : Gapless lo rs hi) {x : α} (hlo : lo ≤ x) (hhi : x < hi) :
    ∃ r ∈ rs, r.1 ≤ x ∧ x < r.2 := by
  induction h with
  | nil => exact absurd hhi (not_lt.mpr hlo)
  | @snoc rs mid r _ hstart _ ih =>
    by_cases hx : r.1 ≤ x
    · exact ⟨r, by simp, hx, hhi⟩
    · obtain ⟨r', hmem, hr'⟩ := ih ((not_le.mp hx).trans_le hstart)
      exact ⟨r', by simp [hmem], hr'⟩

theorem stop_le (h : Gapless lo rs hi) : ∀ r ∈ rs, r.2 ≤ hi := by
  induction h with
  | nil => simp
  | snoc _ _ hstop ih =>
    intro r' hmem
    rcases List.mem_append.mp hmem with hmem | hmem
    · exact (ih r' hmem).trans hstop
    · rw [List.mem_singleton.mp hmem]

end Gapless
