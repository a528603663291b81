import Mathlib.Data.List.Pairwise
import Mathlib.Data.List.TakeWhile
import Mathlib.Order.Basic
import Mathlib.Order.MinMax

/-!
# Segments of a list

Two ways a program carves a contiguous part out of a list: it walks while a test holds, or it
selects the elements of a sorted list whose key lies in an interval.

* **`of_lt_length_takeWhile`**, **`not_of_getElem?_length_takeWhile`** — what the walk passed and
  where it stopped;
* **`mem_segment`**, **`segment_append`** — a segment by its two bounds;
* **`flatten_blocks`** — consecutive blocks of a fixed size make the list up;
* **`filter_lt_eq_take`**, **`filter_le_eq_drop`**, **`filter_mem_Ico_eq`** — selecting from a list
  sorted by its key is taking and dropping, so the selections of overlapping intervals overlap in
  a segment too.
-/

namespace Segment

variable {α : Type*}

/-! ## Walking while a test holds -/

/-- Every element before the end of the walk passed the test. -/
theorem of_lt_length_takeWhile {p : α → Bool} {l : List α} {i : ℕ} {x : α}
    (hi : i < (l.takeWhile p).length) (hx : l[i]? = some x) : p x = true := by
  obtain ⟨t, ht⟩ := List.takeWhile_prefix (l := l) p
  have hpre : (l.takeWhile p)[i]? = some x := by
    calc (l.takeWhile p)[i]? = (l.takeWhile p ++ t)[i]? := (List.getElem?_append_left hi).symm
      _ = some x := by rw [ht, hx]
  exact List.mem_takeWhile_imp (List.mem_of_getElem? hpre)

/-- The element at which the walk stopped failed the test. -/
theorem not_of_getElem?_length_takeWhile {p : α → Bool} {l : List α} {x : α}
    (hx : l[(l.takeWhile p).length]? = some x) : p x = false := by
  induction l with
  | nil => simp at hx
  | cons a l ih =>
    by_cases ha : p a = true
    · rw [List.takeWhile_cons_of_pos ha, List.length_cons, List.getElem?_cons_succ] at hx
      exact ih hx
    · rw [List.takeWhile_cons_of_neg ha] at hx
      simp only [List.length_nil, List.getElem?_cons_zero, Option.some.injEq] at hx
      subst hx
      simpa using ha

/-! ## Positions -/

theorem mem_segment {l : List α} {a b : ℕ} {x : α} :
    x ∈ (l.take b).drop a ↔ ∃ i, a ≤ i ∧ i < b ∧ l[i]? = some x := by
  rw [List.mem_iff_getElem?]
  constructor
  · rintro ⟨i, hi⟩
    rw [List.getElem?_drop] at hi
    have hlt : a + i < b := by
      by_contra hle
      rw [List.getElem?_eq_none (by rw [List.length_take]; omega)] at hi
      cases hi
    rw [List.getElem?_take_of_lt hlt] at hi
    exact ⟨a + i, Nat.le_add_right _ _, hlt, hi⟩
  · rintro ⟨i, ha, hb, hi⟩
    refine ⟨i - a, ?_⟩
    rw [List.getElem?_drop, Nat.add_sub_cancel' ha, List.getElem?_take_of_lt hb, hi]

/-- Two segments that meet are one. -/
theorem segment_append (l : List α) {a c b : ℕ} (hac : a ≤ c) (hcb : c ≤ b) :
    (l.take c).drop a ++ (l.take b).drop c = (l.take b).drop a := by
  have htake : l.take c = (l.take b).take c := by rw [List.take_take, min_eq_left hcb]
  have hdrop : (l.take b).drop c = ((l.take b).drop a).drop (c - a) := by
    rw [List.drop_drop, Nat.add_sub_cancel' hac]
  rw [htake, List.drop_take, hdrop, List.take_append_drop]

/-! ## Blocks -/

/-- `range(0, len(l), size)`: consecutive blocks of at most `size`. -/
def blocks (size : ℕ) (l : List α) : List (List α) :=
  (List.range ((l.length + size - 1) / size)).map fun i => (l.drop (i * size)).take size

/-- The blocks of a list make it up. -/
theorem flatten_blocks {size : ℕ} (hsize : 0 < size) (l : List α) :
    (blocks size l).flatten = l := by
  have hpre : ∀ n, ((List.range n).map fun i => (l.drop (i * size)).take size).flatten
      = l.take (n * size) := by
    intro n
    induction n with
    | zero => simp
    | succ n ih =>
      rw [List.range_succ, List.map_append, List.flatten_append, ih, Nat.succ_mul, List.take_add]
      simp
  rw [blocks, hpre]
  refine List.take_of_length_le ?_
  have hdiv := Nat.div_add_mod (l.length + size - 1) size
  have hmod := Nat.mod_lt (l.length + size - 1) hsize
  rw [Nat.mul_comm] at hdiv
  omega

/-- No block is empty or longer than `size`. -/
theorem length_of_mem_blocks {size : ℕ} (hsize : 0 < size) {l b : List α} (hb : b ∈ blocks size l) :
    0 < b.length ∧ b.length ≤ size := by
  obtain ⟨i, hi, rfl⟩ := List.mem_map.mp hb
  rw [List.mem_range, Nat.lt_div_iff_mul_lt hsize] at hi
  rw [List.length_take, List.length_drop]
  omega

/-- Whole frames are cut into whole frames where the size is a whole number of them. -/
theorem dvd_length_of_mem_blocks {size d : ℕ} {l b : List α} (hl : d ∣ l.length) (hd : d ∣ size)
    (hb : b ∈ blocks size l) : d ∣ b.length := by
  obtain ⟨i, -, rfl⟩ := List.mem_map.mp hb
  rw [List.length_take, List.length_drop]
  rcases min_choice size (l.length - i * size) with h | h <;> rw [h]
  · exact hd
  · exact Nat.dvd_sub hl (Nat.dvd_mul_left_of_dvd hd i)

/-! ## Selecting by a sorted key -/

section Sorted

variable {β : Type*} [LinearOrder β] {key : α → β}

/-- The list is sorted by `key`. -/
def SortedBy (key : α → β) (l : List α) : Prop := l.Pairwise (fun x y => key x ≤ key y)

/-- How many elements have a key below `b`. -/
def countBelow (key : α → β) (l : List α) (b : β) : ℕ := l.countP (fun x => decide (key x < b))

theorem countBelow_le_length (l : List α) (b : β) : countBelow key l b ≤ l.length :=
  List.countP_le_length

theorem countBelow_mono (l : List α) {a b : β} (h : a ≤ b) :
    countBelow key l a ≤ countBelow key l b := by
  refine List.countP_mono_left ?_
  intro x _ hx
  simp only [decide_eq_true_eq] at hx ⊢
  exact hx.trans_le h

/-- In a sorted list the elements below a bound come first. -/
theorem filter_lt_eq_take {l : List α} (hl : SortedBy key l) (b : β) :
    l.filter (fun x => decide (key x < b)) = l.take (countBelow key l b) := by
  induction l with
  | nil => rfl
  | cons a l ih =>
    have hl' := List.pairwise_cons.mp hl
    by_cases ha : key a < b
    · simp [countBelow, ha, ih hl'.2]
    · have hnone : ∀ x ∈ l, ¬ key x < b := by
        intro x hx hlt
        exact ha (lt_of_le_of_lt (hl'.1 x hx) hlt)
      have hcount : countBelow key l b = 0 := by
        simp only [countBelow, List.countP_eq_zero, decide_eq_true_eq]
        exact hnone
      have hfilter : l.filter (fun x => decide (key x < b)) = [] := by
        simpa [List.filter_eq_nil_iff] using hnone
      have hzero : countBelow key (a :: l) b = 0 := by
        simpa [countBelow, List.countP_cons, ha] using hcount
      rw [hzero, List.filter_cons, if_neg (by simpa using ha), hfilter, List.take_zero]

/-- In a sorted list the elements at least a bound come last. -/
theorem filter_le_eq_drop {l : List α} (hl : SortedBy key l) (b : β) :
    l.filter (fun x => decide (b ≤ key x)) = l.drop (countBelow key l b) := by
  induction l with
  | nil => rfl
  | cons a l ih =>
    have hl' := List.pairwise_cons.mp hl
    by_cases ha : key a < b
    · have hcount : countBelow key (a :: l) b = countBelow key l b + 1 := by
        simp [countBelow, ha]
      rw [hcount, List.drop_succ_cons, List.filter_cons, if_neg (by simpa using ha), ih hl'.2]
    · have hall : ∀ x ∈ a :: l, b ≤ key x := by
        intro x hx
        rcases List.mem_cons.mp hx with rfl | hx
        · exact not_lt.mp ha
        · exact (not_lt.mp ha).trans (hl'.1 x hx)
      have hcount : countBelow key (a :: l) b = 0 := by
        simp only [countBelow, List.countP_eq_zero, decide_eq_true_eq, not_lt]
        exact hall
      rw [hcount, List.drop_zero]
      refine List.filter_eq_self.mpr ?_
      simpa using hall

/-- **A half-open interval of a sorted list is a segment of it.** -/
theorem filter_mem_Ico_eq {l : List α} (hl : SortedBy key l) (a b : β) :
    l.filter (fun x => decide (a ≤ key x) && decide (key x < b))
      = (l.take (countBelow key l b)).drop (countBelow key l a) := by
  have hsub : SortedBy key (l.take (countBelow key l b)) := hl.sublist (List.take_sublist _ _)
  rw [← List.filter_filter, filter_lt_eq_take hl, filter_le_eq_drop hsub]
  rcases le_total a b with hab | hab
  · -- the elements below `a` are among those below `b`
    congr 1
    have hle : countBelow key l a ≤ countBelow key l b := countBelow_mono l hab
    have hsplit : countBelow key l a = countBelow key (l.take (countBelow key l b)) a
        + countBelow key (l.drop (countBelow key l b)) a := by
      unfold countBelow
      rw [← List.countP_append, List.take_append_drop]
    have hzero : countBelow key (l.drop (countBelow key l b)) a = 0 := by
      rw [← filter_le_eq_drop hl]
      simp only [countBelow, List.countP_eq_zero, List.mem_filter, decide_eq_true_eq, not_lt]
      exact fun x hx => hab.trans hx.2
    omega
  · have hle : countBelow key l b ≤ countBelow key l a := countBelow_mono l hab
    have hlen : (l.take (countBelow key l b)).length ≤ countBelow key l b := List.length_take_le _ _
    rw [List.drop_of_length_le (hlen.trans hle), List.drop_of_length_le]
    unfold countBelow
    have htake : l.take (countBelow key l b) = l.filter (fun x => decide (key x < b)) :=
      (filter_lt_eq_take hl b).symm
    unfold countBelow at htake
    rw [htake, List.countP_filter, ← List.countP_eq_length_filter]
    refine List.countP_mono_left ?_
    intro x _ hx
    simp only [decide_eq_true_eq] at hx
    simp [hx, hx.trans_le hab]

/-- An element of a sorted list lies before the bound exactly when its index does. -/
theorem lt_countBelow_iff {l : List α} (hl : SortedBy key l) {i : ℕ} {x : α}
    (hx : l[i]? = some x) (b : β) : i < countBelow key l b ↔ key x < b := by
  constructor
  · intro hi
    have hmem : x ∈ l.take (countBelow key l b) := by
      refine List.mem_of_getElem? (i := i) ?_
      rw [List.getElem?_take_of_lt hi, hx]
    rw [← filter_lt_eq_take hl, List.mem_filter] at hmem
    simpa using hmem.2
  · intro hlt
    by_contra hi
    have hmem : x ∈ l.drop (countBelow key l b) := by
      refine List.mem_of_getElem? (i := i - countBelow key l b) ?_
      rw [List.getElem?_drop, Nat.add_sub_cancel' (not_lt.mp hi), hx]
    rw [← filter_le_eq_drop hl, List.mem_filter] at hmem
    exact absurd hlt (not_lt.mpr (by simpa using hmem.2))

end Sorted

end Segment
