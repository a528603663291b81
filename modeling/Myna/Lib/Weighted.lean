import Mathlib.Algebra.GroupWithZero.Nat
import Mathlib.Data.List.Perm.Basic
import Mathlib.Data.List.Sort

/-!
# Lists whose elements are taken several times

A row is an element and how often it is taken. `expand` writes each row out as often as that; where
the `r`th element of the written list comes from is read off the running totals.

* **`length_expand`**, **`expand_perm`**, **`pairwise_expand`** — how long it is, and in which
  order;
* **`getElem?_expand`** — its elements by the running totals;
* **`expand_flatMap_perm`** — groups of elements, taken as often.
-/

namespace Weighted

variable {α : Type*}

/-- Each row's element, as often as it is taken. -/
def expand (rows : List (α × ℕ)) : List α := rows.flatMap fun row => List.replicate row.2 row.1

/-- The running totals of `weights`, from `total` on. -/
def cumulative (total : ℕ) : List ℕ → List ℕ
  | [] => []
  | w :: weights => (total + w) :: cumulative (total + w) weights

theorem expand_cons (row : α × ℕ) (rows : List (α × ℕ)) :
    expand (row :: rows) = List.replicate row.2 row.1 ++ expand rows := rfl

theorem length_expand (rows : List (α × ℕ)) :
    (expand rows).length = (rows.map Prod.snd).sum := by
  simp [expand, List.length_flatMap]

theorem map_expand {β : Type*} (f : α → β) (rows : List (α × ℕ)) :
    (expand rows).map f = expand (rows.map (Prod.map f id)) := by
  simp [expand, List.map_flatMap, List.flatMap_map]

theorem expand_perm {rows rows' : List (α × ℕ)} (h : rows.Perm rows') :
    (expand rows).Perm (expand rows') := h.flatMap_right _

/-- Rows in order are written out in order. -/
theorem pairwise_expand {r : α → α → Prop} [Std.Refl r] {rows : List (α × ℕ)}
    (h : (rows.map Prod.fst).Pairwise r) : (expand rows).Pairwise r := by
  induction rows with
  | nil => exact List.Pairwise.nil
  | cons row rows ih =>
    obtain ⟨hrow, hrows⟩ := List.pairwise_cons.mp h
    rw [expand_cons, List.pairwise_append]
    refine ⟨List.pairwise_replicate.mpr (.inr (refl _)), ih hrows, ?_⟩
    intro a ha b hb
    obtain ⟨row', hrow', hb⟩ := List.mem_flatMap.mp hb
    rw [List.eq_of_mem_replicate ha, List.eq_of_mem_replicate hb]
    exact hrow _ (List.mem_map_of_mem hrow')

theorem getLast?_cumulative (total : ℕ) (weights : List ℕ) (hne : weights ≠ []) :
    (cumulative total weights).getLast? = some (total + weights.sum) := by
  induction weights generalizing total with
  | nil => exact absurd rfl hne
  | cons w weights ih =>
    cases weights with
    | nil => simp [cumulative]
    | cons w' weights =>
      have ih := ih (total + w) (by simp)
      rw [List.sum_cons, ← Nat.add_assoc, ← ih]
      rfl

/-- The first row whose running total is past `r` has the `r`th element. -/
theorem getElem?_expand (rows : List (α × ℕ)) (total r : ℕ) :
    (expand rows)[r]? = ((cumulative total (rows.map Prod.snd)).findIdx? (total + r < ·)).bind
      fun k => rows[k]?.map Prod.fst := by
  induction rows generalizing total r with
  | nil => rfl
  | cons row rows ih =>
    rw [expand_cons, List.map_cons, cumulative, List.findIdx?_cons]
    by_cases hr : r < row.2
    · rw [if_pos (by simpa using hr), List.getElem?_append_left (by simpa using hr),
        List.getElem?_replicate, if_pos hr]
      rfl
    · have hr' : row.2 ≤ r := Nat.le_of_not_lt hr
      have ih := ih (total + row.2) (r - row.2)
      have htotal : total + row.2 + (r - row.2) = total + r := by omega
      rw [htotal] at ih
      rw [if_neg (by simpa using hr'), List.getElem?_append_right (by simpa using hr'),
        List.length_replicate, ih, Option.bind_map]
      rfl

/-- Each element as often in place, or the whole list as often. -/
theorem flatMap_replicate_perm (l : List α) (n : ℕ) :
    (l.flatMap (List.replicate n ·)).Perm (List.replicate n l).flatten := by
  induction n with
  | zero => simp
  | succ n ih =>
    have hsplit : (l.flatMap (List.replicate (n + 1) ·)).Perm
        (l.flatMap ([·]) ++ l.flatMap (List.replicate n ·)) :=
      (List.flatMap_append_perm l ([·]) (List.replicate n ·)).symm
    rw [List.flatMap_singleton'] at hsplit
    rw [List.replicate_succ, List.flatten_cons]
    exact hsplit.trans (ih.append_left l)

/-- Groups taken as often as they stand, or each of their elements. -/
theorem expand_flatMap_perm (rows : List (List α × ℕ)) :
    (expand (rows.flatMap fun row => row.1.map (·, row.2))).Perm (expand rows).flatten := by
  induction rows with
  | nil => exact List.Perm.refl _
  | cons row rows ih =>
    rw [List.flatMap_cons, expand_cons, List.flatten_append]
    have hfirst : expand (row.1.map (·, row.2)) = row.1.flatMap (List.replicate row.2 ·) := by
      unfold expand
      rw [List.flatMap_map]
    have happend : expand (row.1.map (·, row.2) ++ rows.flatMap fun row => row.1.map (·, row.2)) =
        expand (row.1.map (·, row.2)) ++ expand (rows.flatMap fun row => row.1.map (·, row.2)) :=
      List.flatMap_append
    rw [happend, hfirst]
    exact (flatMap_replicate_perm row.1 row.2).append ih

end Weighted
