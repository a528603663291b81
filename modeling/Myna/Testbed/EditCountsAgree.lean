import Mathlib.Algebra.Group.Nat.Defs
import Mathlib.Tactic.SplitIfs
import Myna.Testbed.EditCounts

/-!
# Myna — the two edit counts agree

Both backtraces walk the one table of edit distances: the full one reads it, and a block recomputes
the rows of it that it needs from a row that was kept. Every turn is then the same, also one that
falls on the edge of a block.

* **`cell`** — the table, and **`isDistance_cell`** what its cells are;
* **`rowAfter_spec`**, **`directRow_spec`** — a row of it, packed or not;
* **`back`** — a turn through it, and **`Balanced.back`** what a turn keeps;
* **`forward_spec`**, **`blockRows_spec`** — the rows kept, and those recomputed;
* **`backward_spec`** — the blocks take the turns of the full backtrace;
* **`counts_agree`** — the result.
-/

namespace Myna

namespace Metrics

open EditDistance

variable {α : Type} [DecidableEq α]

section Table

variable (reference hypothesis : List α)

/-! ## The table -/

/-- `dp[i][j]`. -/
def cell : ℕ → ℕ → ℕ
  | 0, j => j
  | i + 1, 0 => i + 1
  | i + 1, j + 1 =>
    if reference[i]? = hypothesis[j]? then cell i j
    else 1 + min (min (cell i j) (cell i (j + 1))) (cell (i + 1) j)
termination_by i j => (i, j)

/-- `dp[i]`. -/
def row (i : ℕ) : List ℕ := (List.range (hypothesis.length + 1)).map (cell reference hypothesis i)

variable {reference hypothesis}

theorem cell_zero_left (j : ℕ) : cell reference hypothesis 0 j = j := by rw [cell]

theorem cell_zero_right (i : ℕ) : cell reference hypothesis i 0 = i := by
  cases i <;> rw [cell]

theorem cell_le_max (i j : ℕ) : cell reference hypothesis i j ≤ max i j := by
  induction i, j using cell.induct reference hypothesis with
  | case1 j => rw [cell_zero_left]; omega
  | case2 i => rw [cell_zero_right]; omega
  | case3 i j heq ih => rw [cell, if_pos heq]; omega
  | case4 i j hne ih ih' ih'' => rw [cell, if_neg hne]; omega

theorem entry_row {i j : ℕ} (hj : j ≤ hypothesis.length) :
    entry (row reference hypothesis i) j = cell reference hypothesis i j := by
  unfold entry row
  rw [List.getElem?_map, List.getElem?_range (Nat.lt_succ_of_le hj)]
  rfl

/-- The first `k` cells of a row that is being filled. -/
def cells (reference hypothesis : List α) (i k : ℕ) : List ℕ :=
  (List.range k).map (cell reference hypothesis i)

theorem entry_cells {i j k : ℕ} (hj : j < k) :
    entry (cells reference hypothesis i k) j = cell reference hypothesis i j := by
  unfold entry cells
  rw [List.getElem?_map, List.getElem?_range hj]
  rfl

theorem cells_succ (i k : ℕ) : cells reference hypothesis i (k + 1) =
    cells reference hypothesis i k ++ [cell reference hypothesis i k] := by
  unfold cells
  rw [List.range_succ, List.map_append]
  rfl

/-- One cell, from the row before and the cells before it. -/
theorem cellOf_eq {i j : ℕ} {r h : α} (hr : reference[i]? = some r) (hh : hypothesis[j]? = some h) :
    cellOf r h (row reference hypothesis i) (cells reference hypothesis (i + 1) (j + 1)) j =
      cell reference hypothesis (i + 1) (j + 1) := by
  have hj : j < hypothesis.length := (List.getElem?_eq_some_iff.mp hh).1
  unfold cellOf
  rw [cell, hr, hh, entry_row hj.le, entry_row hj, entry_cells (Nat.lt_succ_self j)]
  simp only [Option.some.injEq]

/-- The row of the full table. Induction on the hypothesis left to fill it with. -/
theorem directRow_spec {i : ℕ} {r : α} (hr : reference[i]? = some r) :
    directRow hypothesis (row reference hypothesis i) r (i + 1) =
      row reference hypothesis (i + 1) := by
  have hfill : ∀ (rest : List α) (j : ℕ), hypothesis.drop j = rest → j ≤ hypothesis.length →
      (rest.zipIdx j).foldl
        (fun cur h => cur ++ [cellOf r h.1 (row reference hypothesis i) cur h.2])
        (cells reference hypothesis (i + 1) (j + 1)) = row reference hypothesis (i + 1) := by
    intro rest
    induction rest with
    | nil =>
      intro j hdrop hj
      have : j = hypothesis.length := le_antisymm hj (List.drop_eq_nil_iff.mp hdrop)
      rw [this]
      rfl
    | cons h rest ih =>
      intro j hdrop hj
      have hh : hypothesis[j]? = some h := by
        rw [← List.head?_drop, hdrop]
        rfl
      have hlt : j < hypothesis.length := (List.getElem?_eq_some_iff.mp hh).1
      rw [List.zipIdx_cons, List.foldl_cons, cellOf_eq hr hh, ← cells_succ]
      refine ih (j + 1) ?_ hlt
      rw [← List.drop_drop, hdrop]
      rfl
  have hfirst : cells reference hypothesis (i + 1) 1 = [i + 1] := by
    show [cell reference hypothesis (i + 1) 0] = _
    rw [cell_zero_right]
  have := hfill hypothesis 0 rfl (Nat.zero_le _)
  rw [hfirst] at this
  exact this

theorem pack_of_lt {limit value : ℕ} (cur : List ℕ) (h : value < limit) :
    pack limit cur value = some (cur ++ [value]) := if_pos h

/-- **A packed row**, in a type that holds every distance between these lists. -/
theorem rowAfter_spec {i limit : ℕ} {r : α} (hr : reference[i]? = some r)
    (hlimit : max reference.length hypothesis.length < limit) :
    rowAfter limit (row reference hypothesis i) r hypothesis =
      some (row reference hypothesis (i + 1)) := by
  have hi : i < reference.length := (List.getElem?_eq_some_iff.mp hr).1
  have hfits : ∀ j ≤ hypothesis.length, cell reference hypothesis (i + 1) j < limit := by
    intro j hj
    have := @cell_le_max _ _ reference hypothesis (i + 1) j
    omega
  have hfill : ∀ (rest : List α) (j : ℕ), hypothesis.drop j = rest → j ≤ hypothesis.length →
      (rest.zipIdx j).foldlM
        (fun cur h => pack limit cur (cellOf r h.1 (row reference hypothesis i) cur h.2))
        (cells reference hypothesis (i + 1) (j + 1)) =
          some (row reference hypothesis (i + 1)) := by
    intro rest
    induction rest with
    | nil =>
      intro j hdrop hj
      have : j = hypothesis.length := le_antisymm hj (List.drop_eq_nil_iff.mp hdrop)
      rw [this]
      rfl
    | cons h rest ih =>
      intro j hdrop hj
      have hh : hypothesis[j]? = some h := by
        rw [← List.head?_drop, hdrop]
        rfl
      have hlt : j < hypothesis.length := (List.getElem?_eq_some_iff.mp hh).1
      rw [List.zipIdx_cons, List.foldlM_cons, cellOf_eq hr hh, pack_of_lt _ (hfits (j + 1) hlt),
        ← cells_succ]
      refine ih (j + 1) ?_ hlt
      rw [← List.drop_drop, hdrop]
      rfl
  have hfirst : pack limit [] (entry (row reference hypothesis i) 0 + 1) =
      some (cells reference hypothesis (i + 1) 1) := by
    have hzero := hfits 0 (Nat.zero_le _)
    rw [cell_zero_right] at hzero
    rw [entry_row (Nat.zero_le _), cell_zero_right, pack_of_lt _ hzero]
    show some [i + 1] = some [cell reference hypothesis (i + 1) 0]
    rw [cell_zero_right]
  unfold rowAfter
  rw [hfirst]
  exact hfill hypothesis 0 rfl (Nat.zero_le _)

/-- **A cell is the edit distance** of what came before it. Induction on the cells. -/
theorem isDistance_cell {i j : ℕ} (hi : i ≤ reference.length) (hj : j ≤ hypothesis.length) :
    IsDistance (reference.take i) (hypothesis.take j) (cell reference hypothesis i j) := by
  suffices hreverse : IsDistance (reference.take i).reverse (hypothesis.take j).reverse
      (cell reference hypothesis i j) from hreverse.reverse
  have hcons : ∀ (l : List α) {k : ℕ} {a : α}, l[k]? = some a →
      (l.take (k + 1)).reverse = a :: (l.take k).reverse := by
    intro l k a ha
    rw [List.take_add_one, ha, Option.toList_some, List.reverse_append]
    rfl
  induction i, j using cell.induct reference hypothesis with
  | case1 j =>
    have := (isDistance_nil (hypothesis.take j).reverse).symm
    rw [List.length_reverse, List.length_take, min_eq_left hj] at this
    rw [cell_zero_left]
    exact this
  | case2 i =>
    have := isDistance_nil (reference.take (i + 1)).reverse
    rw [List.length_reverse, List.length_take, min_eq_left hi] at this
    rw [cell_zero_right]
    exact this
  | case3 i j heq ih =>
    have hr : reference[i]? = some (reference[i]) := List.getElem?_eq_getElem hi
    rw [cell, if_pos heq, hcons reference hr, hcons hypothesis (heq.symm.trans hr)]
    exact isDistance_keep _ (ih (Nat.le_of_succ_le hi) (Nat.le_of_succ_le hj))
  | case4 i j hne ih ih' ih'' =>
    have hr : reference[i]? = some (reference[i]) := List.getElem?_eq_getElem hi
    have hh : hypothesis[j]? = some (hypothesis[j]) := List.getElem?_eq_getElem hj
    rw [hr, hh] at hne
    have hne' : reference[i] ≠ hypothesis[j] := fun heq => hne (congrArg some heq)
    have hdiagonal := ih (Nat.le_of_succ_le hi) (Nat.le_of_succ_le hj)
    have hup := ih' (Nat.le_of_succ_le hi) hj
    have hleft := ih'' hi (Nat.le_of_succ_le hj)
    rw [hcons hypothesis hh] at hup
    rw [hcons reference hr] at hleft
    rw [cell, if_neg (by rw [hr, hh]; exact hne), hcons reference hr, hcons hypothesis hh]
    exact isDistance_edit hne' hdiagonal hup hleft

end Table

section Agree

variable (reference hypothesis : List α)

/-! ## The backtrace through the table -/

/-- A turn through the table itself. -/
def back (t : Trace) : Trace :=
  t.turn (reference[t.i - 1]? == hypothesis[t.j - 1]?) (row reference hypothesis t.i)
    (row reference hypothesis (t.i - 1))

variable {reference hypothesis}

/-- **What a turn does**, above the bottom left corner. -/
theorem back_cases {t : Trace} (hj : t.j ≤ hypothesis.length) (ht : t.test = true) :
    (0 < t.i ∧ 0 < t.j ∧
      cell reference hypothesis t.i t.j = cell reference hypothesis (t.i - 1) (t.j - 1) ∧
      back reference hypothesis t = { t with i := t.i - 1, j := t.j - 1 }) ∨
    (0 < t.i ∧ 0 < t.j ∧
      cell reference hypothesis t.i t.j = cell reference hypothesis (t.i - 1) (t.j - 1) + 1 ∧
      back reference hypothesis t =
        { t with subs := t.subs + 1, i := t.i - 1, j := t.j - 1 }) ∨
    (0 < t.i ∧ cell reference hypothesis t.i t.j = cell reference hypothesis (t.i - 1) t.j + 1 ∧
      back reference hypothesis t = { t with dels := t.dels + 1, i := t.i - 1 }) ∨
    (0 < t.j ∧ cell reference hypothesis t.i t.j = cell reference hypothesis t.i (t.j - 1) + 1 ∧
      back reference hypothesis t = { t with ins := t.ins + 1, j := t.j - 1 }) := by
  have htest : 0 < t.i ∨ 0 < t.j := of_decide_eq_true ht
  unfold back Trace.turn
  rw [entry_row hj, entry_row ((Nat.sub_le _ _).trans hj), entry_row hj]
  obtain ⟨i, j, subs, dels, ins⟩ := t
  cases i with
  | zero =>
    -- only insertions are left
    have hpos : 0 < j := htest.resolve_left (lt_irrefl 0)
    refine .inr (.inr (.inr ⟨hpos, ?_, ?_⟩))
    · rw [cell_zero_left, cell_zero_left]
      exact (Nat.sub_add_cancel hpos).symm
    · simp
  | succ i =>
    cases j with
    | zero =>
      -- and only deletions
      have hcell : cell reference hypothesis (i + 1) 0 = cell reference hypothesis i 0 + 1 := by
        rw [cell_zero_right, cell_zero_right]
      refine .inr (.inr (.inl ⟨Nat.succ_pos i, hcell, ?_⟩))
      simp [hcell]
    | succ j =>
      by_cases heq : reference[i]? = hypothesis[j]?
      · refine .inl ⟨Nat.succ_pos i, Nat.succ_pos j, ?_, ?_⟩
        · show cell reference hypothesis (i + 1) (j + 1) = _
          rw [cell, if_pos heq]
          rfl
        · simp [heq]
      · have hcell : cell reference hypothesis (i + 1) (j + 1) = 1 +
            min (min (cell reference hypothesis i j) (cell reference hypothesis i (j + 1)))
              (cell reference hypothesis (i + 1) j) := by
          rw [cell, if_neg heq]
        have hdiffer : (reference[i]? == hypothesis[j]?) = false := beq_eq_false_iff_ne.mpr heq
        simp only [Nat.add_sub_cancel, hdiffer, Bool.false_eq_true, and_false, if_false,
          Nat.succ_pos, true_and]
        by_cases hsub : cell reference hypothesis (i + 1) (j + 1)
          = cell reference hypothesis i j + 1
        · exact .inr (.inl ⟨hsub, by rw [if_pos hsub]⟩)
        · by_cases hdel : cell reference hypothesis (i + 1) (j + 1) =
              cell reference hypothesis i (j + 1) + 1
          · exact .inr (.inr (.inl ⟨hdel, by rw [if_neg hsub, if_pos hdel]⟩))
          · refine .inr (.inr (.inr ⟨by omega, by rw [if_neg hsub, if_neg hdel]⟩))

/-- What the counts say of where the backtrace stands. -/
structure Balanced (reference hypothesis : List α) (t : Trace) : Prop where
  col : t.j ≤ hypothesis.length
  cost : t.subs + t.dels + t.ins + cell reference hypothesis t.i t.j =
    cell reference hypothesis reference.length hypothesis.length
  deleted : t.dels + t.i ≤ reference.length
  lengths : reference.length + t.ins + t.j = hypothesis.length + t.dels + t.i

theorem Balanced.start :
    Balanced reference hypothesis { i := reference.length, j := hypothesis.length } where
  col := le_rfl
  cost := Nat.zero_add _
  deleted := (Nat.zero_add _).le
  lengths := by dsimp only; omega

/-- **A turn keeps the balance**, and is one row or one column less. -/
theorem Balanced.back {t : Trace} (h : Balanced reference hypothesis t) (ht : t.test = true) :
    Balanced reference hypothesis (back reference hypothesis t) ∧
      (back reference hypothesis t).i ≤ t.i ∧ t.i ≤ (back reference hypothesis t).i + 1 ∧
      (back reference hypothesis t).j ≤ t.j ∧
      (back reference hypothesis t).i + (back reference hypothesis t).j < t.i + t.j := by
  obtain ⟨hcol, hcost, hdeleted, hlengths⟩ := h
  rcases back_cases hcol ht with ⟨hi, hj, hcell, hback⟩ | ⟨hi, hj, hcell, hback⟩ |
    ⟨hi, hcell, hback⟩ | ⟨hj, hcell, hback⟩
  all_goals
    rw [hback]
    refine ⟨⟨?_, ?_, ?_, ?_⟩, ?_, ?_, ?_, ?_⟩
    all_goals
      dsimp only
      omega

/-! ## The full table -/

theorem directTable_spec {i : ℕ} (hi : i ≤ reference.length) :
    ((directTable reference hypothesis)[i]?).getD [] = row reference hypothesis i := by
  have hfill : ∀ (rest : List α) (k : ℕ), reference.drop k = rest → k ≤ reference.length →
      (rest.zipIdx k).foldl
        (fun dp r => dp ++ [directRow hypothesis ((dp[r.2]?).getD []) r.1 (r.2 + 1)])
        ((List.range (k + 1)).map (row reference hypothesis)) =
          (List.range (reference.length + 1)).map (row reference hypothesis) := by
    intro rest
    induction rest with
    | nil =>
      intro k hdrop hk
      have : k = reference.length := le_antisymm hk (List.drop_eq_nil_iff.mp hdrop)
      rw [this]
      rfl
    | cons r rest ih =>
      intro k hdrop hk
      have hr : reference[k]? = some r := by
        rw [← List.head?_drop, hdrop]
        rfl
      have hlt : k < reference.length := (List.getElem?_eq_some_iff.mp hr).1
      have hlast : (((List.range (k + 1)).map (row reference hypothesis))[k]?).getD [] =
          row reference hypothesis k := by
        rw [List.getElem?_map, List.getElem?_range (Nat.lt_succ_self k)]
        rfl
      rw [List.zipIdx_cons, List.foldl_cons, hlast, directRow_spec hr]
      have hnext : (List.range (k + 1)).map (row reference hypothesis) ++
          [row reference hypothesis (k + 1)] =
            (List.range (k + 1 + 1)).map (row reference hypothesis) := by
        rw [List.range_succ (n := k + 1), List.map_append]
        rfl
      rw [hnext]
      refine ih (k + 1) ?_ hlt
      rw [← List.drop_drop, hdrop]
      rfl
  have hfirst : [List.range (hypothesis.length + 1)] =
      (List.range 1).map (row reference hypothesis) := by
    have hrow : row reference hypothesis 0 = List.range (hypothesis.length + 1) := by
      unfold row
      exact (List.map_congr_left fun j _ => cell_zero_left j).trans (List.map_id _)
    show _ = [row reference hypothesis 0]
    rw [hrow]
  have htable : directTable reference hypothesis =
      (List.range (reference.length + 1)).map (row reference hypothesis) := by
    unfold directTable
    rw [hfirst]
    exact hfill reference 0 rfl (Nat.zero_le _)
  rw [htable, List.getElem?_map, List.getElem?_range (Nat.lt_succ_of_le hi)]
  rfl

/-- **The full backtrace** ends where the turns through the table do. -/
theorem directCounts_spec (hreference : reference ≠ []) (hhypothesis : hypothesis ≠ []) :
    ∃ t, While.Returns Trace.test (back reference hypothesis)
        { i := reference.length, j := hypothesis.length } t ∧ Balanced reference hypothesis t ∧
      directCounts reference hypothesis = some t.counts := by
  obtain ⟨t, hloop, hbalanced⟩ := While.loop_of_measure Trace.test (back reference hypothesis)
    (fun t => t.i + t.j) (fun t ht htest => ⟨(ht.back htest).1, (ht.back htest).2.2.2.2⟩)
    (reference.length + hypothesis.length) _ Balanced.start le_rfl
  refine ⟨t, ⟨_, hloop⟩, hbalanced, ?_⟩
  have hturn : ∀ t, Balanced reference hypothesis t →
      directTurn reference hypothesis (directTable reference hypothesis) t =
        back reference hypothesis t := by
    intro t ht
    have hi : t.i ≤ reference.length := (Nat.le_add_left _ _).trans ht.deleted
    unfold directTurn back
    rw [directTable_spec hi, directTable_spec ((Nat.sub_le _ _).trans hi)]
  have hsame : (While.whileLoop Trace.test
      (directTurn reference hypothesis (directTable reference hypothesis))
      (reference.length + hypothesis.length)
      { i := reference.length, j := hypothesis.length }).map (fun t => t) = some t := by
    rw [While.lockstep (I := Balanced reference hypothesis) (fun _ _ => rfl) ?_ _ _ Balanced.start]
    · exact hloop
    · intro t ht htest
      rw [hturn t ht]
      exact ⟨(ht.back htest).1, rfl⟩
  rw [Option.map_id'] at hsame
  unfold directCounts
  dsimp only
  rw [if_neg (by simpa using hreference), if_neg (by simpa using hhypothesis), hsame]
  rfl

/-! ## The rows that are kept -/

theorem packRange_eq (limit k : ℕ) : (List.range k).foldlM (pack limit) [] =
    if k ≤ limit then some (List.range k) else none := by
  induction k with
  | zero => rfl
  | succ k ih =>
    rw [List.range_succ, List.foldlM_append, ih]
    by_cases hk : k ≤ limit
    · rw [if_pos hk]
      show (pack limit (List.range k) k).bind (List.foldlM (pack limit) · []) = _
      unfold pack
      by_cases hlt : k < limit
      · rw [if_pos hlt, if_pos (Nat.succ_le_of_lt hlt)]
        rfl
      · rw [if_neg hlt, if_neg (by omega)]
        rfl
    · rw [if_neg hk, if_neg (by omega)]
      rfl

theorem row_zero : row reference hypothesis 0 = List.range (hypothesis.length + 1) := by
  unfold row
  exact (List.map_congr_left fun j _ => cell_zero_left j).trans (List.map_id _)

/-- The rows up to `k` that the forward pass keeps. -/
def Kept (reference hypothesis : List α) (block k : ℕ) (checkpoints : Dict ℕ (List ℕ)) : Prop :=
  ∀ i ≤ k, i % block = 0 ∨ i = reference.length →
    checkpoints.get? i = some (row reference hypothesis i)

/-- **The forward pass** in a wide enough type keeps its rows. Induction on the reference left. -/
theorem forward_spec {limit : ℕ} (block : ℕ)
    (hlimit : max reference.length hypothesis.length < limit) :
    ∃ checkpoints, forward reference hypothesis limit block = some checkpoints ∧
      Kept reference hypothesis block reference.length checkpoints := by
  have hfold : ∀ (rest : List α) (k : ℕ) (checkpoints : Dict ℕ (List ℕ)),
      reference.drop k = rest → k ≤ reference.length →
      Kept reference hypothesis block k checkpoints →
      ∃ checkpoints', (rest.zipIdx k).foldlM (keepRow reference hypothesis limit block)
          (row reference hypothesis k, checkpoints) =
            some (row reference hypothesis reference.length, checkpoints') ∧
        Kept reference hypothesis block reference.length checkpoints' := by
    intro rest
    induction rest with
    | nil =>
      intro k checkpoints hdrop hk hkept
      obtain rfl : k = reference.length := le_antisymm hk (List.drop_eq_nil_iff.mp hdrop)
      exact ⟨checkpoints, rfl, hkept⟩
    | cons r rest ih =>
      intro k checkpoints hdrop hk hkept
      have hr : reference[k]? = some r := by
        rw [← List.head?_drop, hdrop]
        rfl
      have hlt : k < reference.length := (List.getElem?_eq_some_iff.mp hr).1
      have hstep : keepRow reference hypothesis limit block
          (row reference hypothesis k, checkpoints) (r, k) =
          some (row reference hypothesis (k + 1),
            if (k + 1) % block = 0 ∨ k + 1 = reference.length then
              checkpoints.set (k + 1) (row reference hypothesis (k + 1)) else checkpoints) := by
        unfold keepRow
        dsimp only
        rw [rowAfter_spec hr hlimit]
        rfl
      rw [List.zipIdx_cons, List.foldlM_cons, hstep]
      refine ih (k + 1) _ (by rw [← List.drop_drop, hdrop]; rfl) hlt fun i hi hcheck => ?_
      rcases Nat.le_succ_iff.mp hi with hi | rfl
      · split
        · rw [Dict.get?_set, if_neg (by omega)]
          exact hkept i hi hcheck
        · exact hkept i hi hcheck
      · rw [if_pos hcheck, Dict.get?_set, if_pos rfl]
  have hfirst : Kept reference hypothesis block 0 [(0, row reference hypothesis 0)] := by
    intro i hi _
    obtain rfl : i = 0 := Nat.le_zero.mp hi
    rfl
  obtain ⟨checkpoints, hfolded, hkept⟩ := hfold reference 0 _ rfl (Nat.zero_le _) hfirst
  refine ⟨checkpoints, ?_, hkept⟩
  unfold forward
  rw [packRange_eq, if_pos (by omega), ← @row_zero _ _ reference hypothesis]
  show Option.bind (List.foldlM (keepRow reference hypothesis limit block)
    (row reference hypothesis 0, [(0, row reference hypothesis 0)]) reference.zipIdx) _ = _
  rw [hfolded]
  rfl

/-- A packed row begins with one more than the row before, which fitted. -/
theorem rowAfter_head {limit : ℕ} {prev row : List ℕ} {r : α}
    (h : rowAfter limit prev r hypothesis = some row) :
    entry row 0 = entry prev 0 + 1 ∧ entry prev 0 + 1 < limit := by
  have hgrows : ∀ (rest : List (α × ℕ)) (cur row : List ℕ),
      rest.foldlM (fun cur h => pack limit cur (cellOf r h.1 prev cur h.2)) cur = some row →
      ∃ more, row = cur ++ more := by
    intro rest
    induction rest with
    | nil =>
      intro cur row hrow
      exact ⟨[], by rw [List.append_nil]; exact (Option.some.inj hrow).symm⟩
    | cons h rest ih =>
      intro cur row hrow
      rw [List.foldlM_cons] at hrow
      obtain ⟨cur', hpack, hrow⟩ := Option.bind_eq_some_iff.mp hrow
      unfold pack at hpack
      split at hpack
      · obtain rfl := Option.some.inj hpack
        obtain ⟨more, rfl⟩ := ih _ _ hrow
        exact ⟨_, List.append_assoc _ _ _⟩
      · cases hpack
  unfold rowAfter at h
  obtain ⟨cur, hpack, hrow⟩ := Option.bind_eq_some_iff.mp h
  unfold pack at hpack
  split at hpack
  · next hlt =>
    obtain rfl := Option.some.inj hpack
    obtain ⟨more, rfl⟩ := hgrows _ _ _ hrow
    exact ⟨rfl, hlt⟩
  · cases hpack

/-- A forward pass that overflows nothing has few enough rows and columns. -/
theorem lt_of_forward {limit block : ℕ} {checkpoints : Dict ℕ (List ℕ)}
    (hreference : reference ≠ [])
    (h : forward reference hypothesis limit block = some checkpoints) :
    reference.length < limit ∧ hypothesis.length < limit := by
  have hfold : ∀ (rest : List α) (k : ℕ) (acc acc' : List ℕ × Dict ℕ (List ℕ)), rest ≠ [] →
      (rest.zipIdx k).foldlM (keepRow reference hypothesis limit block) acc = some acc' →
      entry acc.1 0 + rest.length < limit := by
    intro rest
    induction rest with
    | nil => intro _ _ _ hne; exact absurd rfl hne
    | cons r rest ih =>
      intro k acc acc' _ hrun
      rw [List.zipIdx_cons, List.foldlM_cons] at hrun
      obtain ⟨next, hstep, hrest⟩ := Option.bind_eq_some_iff.mp hrun
      unfold keepRow at hstep
      obtain ⟨row, hrow, hnext⟩ := Option.bind_eq_some_iff.mp hstep
      obtain ⟨hhead, hlt⟩ := rowAfter_head hrow
      cases rest with
      | nil => exact hlt
      | cons r' rest =>
        have := ih (k + 1) next acc' (by simp) hrest
        obtain rfl := Option.some.inj hnext
        dsimp only at this
        rw [hhead] at this
        simp only [List.length_cons] at this ⊢
        omega
  unfold forward at h
  obtain ⟨first, hfirst, h⟩ := Option.bind_eq_some_iff.mp h
  obtain ⟨acc, hrun, -⟩ := Option.bind_eq_some_iff.mp h
  rw [packRange_eq] at hfirst
  split at hfirst
  · next hm =>
    obtain rfl := Option.some.inj hfirst
    have := hfold reference 0 _ acc hreference hrun
    exact ⟨by omega, by omega⟩
  · cases hfirst

/-! ## The blocks -/

/-- **The rows of a block**, replayed. Induction on the rows left. -/
theorem blockRows_spec {limit : ℕ} (hlimit : max reference.length hypothesis.length < limit)
    {checkpoints : Dict ℕ (List ℕ)} {lo hi : ℕ} (hle : lo ≤ hi) (hhi : hi ≤ reference.length)
    (hlo : checkpoints.get? lo = some (row reference hypothesis lo)) :
    ∃ rows, blockRows reference hypothesis limit checkpoints lo hi = some rows ∧
      ∀ s ≤ hi - lo, (rows[s]?).getD [] = row reference hypothesis (lo + s) := by
  have hfold : ∀ (rest : List α) (k : ℕ), ((reference.drop lo).take (hi - lo)).drop k = rest →
      k ≤ hi - lo → ∃ last, rest.foldlM (replayRow hypothesis limit)
        ((List.range (k + 1)).map (fun s => row reference hypothesis (lo + s)),
          row reference hypothesis (lo + k)) =
        some ((List.range (hi - lo + 1)).map (fun s =>
          row reference hypothesis (lo + s)), last) := by
    intro rest
    induction rest with
    | nil =>
      intro k hdrop hk
      have hlength := List.drop_eq_nil_iff.mp hdrop
      rw [List.length_take, List.length_drop] at hlength
      obtain rfl : k = hi - lo := by omega
      exact ⟨_, rfl⟩
    | cons r rest ih =>
      intro k hdrop hk
      have hget : ((reference.drop lo).take (hi - lo))[k]? = some r := by
        rw [← List.head?_drop, hdrop]
        rfl
      have hlt : k < hi - lo := by
        have := (List.getElem?_eq_some_iff.mp hget).1
        rw [List.length_take] at this
        omega
      have hr : reference[lo + k]? = some r := by
        rw [List.getElem?_take, if_pos hlt, List.getElem?_drop] at hget
        exact hget
      have hstep : replayRow hypothesis limit
          ((List.range (k + 1)).map (fun s => row reference hypothesis (lo + s)),
            row reference hypothesis (lo + k)) r =
          some ((List.range (k + 1 + 1)).map (fun s => row reference hypothesis (lo + s)),
            row reference hypothesis (lo + (k + 1))) := by
        unfold replayRow
        dsimp only
        rw [rowAfter_spec hr hlimit, List.range_succ (n := k + 1), List.map_append]
        rfl
      rw [List.foldlM_cons, hstep]
      exact ih (k + 1) (by rw [← List.drop_drop, hdrop]; rfl) hlt
  obtain ⟨last, hrun⟩ := hfold _ 0 rfl (Nat.zero_le _)
  refine ⟨(List.range (hi - lo + 1)).map (fun s => row reference hypothesis (lo + s)), ?_, ?_⟩
  · unfold blockRows
    rw [hlo]
    show Option.bind (List.foldlM (replayRow hypothesis limit)
      ((List.range (0 + 1)).map (fun s => row reference hypothesis (lo + s)),
        row reference hypothesis (lo + 0)) (((reference.drop lo).take (hi - lo)).drop 0)) _ = _
    rw [hrun]
    rfl
  · intro s hs
    rw [List.getElem?_map, List.getElem?_range (Nat.lt_succ_of_le hs)]
    rfl

theorem turn_of_zero {same : Bool} {cur prev : List ℕ} {t : Trace} (h : t.i = 0) :
    t.turn same cur prev = { t with ins := t.ins + 1, j := t.j - 1 } := by
  unfold Trace.turn
  simp [h]

/-- A turn in a block is the turn in the table. -/
theorem turn_shift {same : Bool} {cur prev : List ℕ} {t : Trace} (lo : ℕ) (h : 0 < t.i) :
    { t.turn same cur prev with i := lo + (t.turn same cur prev).i } =
      ({ t with i := lo + t.i } : Trace).turn same cur prev := by
  unfold Trace.turn
  have hpos : 0 < lo + t.i := by omega
  have hpred : lo + (t.i - 1) = lo + t.i - 1 := by omega
  simp only [h, hpos, true_and]
  split_ifs <;> simp only [hpred]

/-- **The blocks** take the turns of the full backtrace. Induction on the blocks left. -/
theorem backward_spec {limit block : ℕ}
    (hlimit : max reference.length hypothesis.length < limit) {checkpoints : Dict ℕ (List ℕ)}
    (hkept : Kept reference hypothesis block reference.length checkpoints) :
    ∀ fuel t, Balanced reference hypothesis t → t.i ≤ fuel → (t.i = 0 → t.j = 0) →
      ∃ t', backward reference hypothesis limit block checkpoints fuel t = some t' ∧
        While.Returns Trace.test (back reference hypothesis) t t' := by
  intro fuel
  induction fuel with
  | zero =>
    intro t _ hfuel hcorner
    have hi : t.i = 0 := Nat.le_zero.mp hfuel
    have hend : t.test = false := by simp [Trace.test, hi, hcorner hi]
    refine ⟨t, ?_, While.returns_of_not_test hend⟩
    unfold backward
    rw [hend]
    rfl
  | succ fuel ih =>
    intro t ht hfuel hcorner
    unfold backward
    cases htest : t.test with
    | false => exact ⟨t, rfl, While.returns_of_not_test htest⟩
    | true =>
      have hi : 0 < t.i := by
        rcases of_decide_eq_true htest with hi | hj
        · exact hi
        · exact Nat.pos_of_ne_zero fun hi => absurd (hcorner hi) hj.ne'
      rw [if_pos rfl, if_pos hi]
      generalize hlo : (t.i - 1) / block * block = lo
      have hlt : lo < t.i := by
        have := Nat.div_mul_le_self (t.i - 1) block
        omega
      have hi' : t.i ≤ reference.length := (Nat.le_add_left _ _).trans ht.deleted
      obtain ⟨rows, hrows, hentries⟩ := blockRows_spec hlimit hlt.le hi'
        (hkept lo (by omega) (.inl (by rw [← hlo]; exact Nat.mul_mod_left _ _)))
      -- the turns of the block, in the table
      obtain ⟨t₁, hloop, hbalanced, hge⟩ := While.loop_of_measure
        (fun u : Trace => decide (lo < u.i ∨ lo = 0 ∧ 0 < u.j)) (back reference hypothesis)
        (I := fun u => Balanced reference hypothesis u ∧ lo ≤ u.i) (fun u => u.i - lo + u.j)
        (by
          rintro u ⟨hu, hge⟩ hgoes
          have hgoes := of_decide_eq_true hgoes
          have hutest : u.test = true := decide_eq_true (by omega)
          obtain ⟨hkept, hle, hge', hle', hless⟩ := hu.back hutest
          exact ⟨⟨hkept, by omega⟩, by omega⟩)
        (t.i - lo + t.j) t ⟨ht, hlt.le⟩ le_rfl
      have hview : (While.whileLoop (blockTest lo) (blockTurn reference hypothesis rows lo)
          (t.i - lo + t.j) { t with i := t.i - lo }).map (fun s => { s with i := lo + s.i }) =
            some t₁ := by
        have hstart : ({ t with i := lo + (t.i - lo) } : Trace) = t := by
          rw [Nat.add_sub_of_le hlt.le]
        rw [While.lockstep (I := fun s : Trace =>
            Balanced reference hypothesis { s with i := lo + s.i } ∧ s.i ≤ t.i - lo)
          (fun s _ => ?_) (fun s hs hgoes => ?_) _ _ ⟨by rw [hstart]; exact ht, le_rfl⟩]
        · show While.whileLoop _ _ _ ({ t with i := lo + (t.i - lo) } : Trace) = _
          rw [hstart]
          exact hloop
        · unfold blockTest
          refine decide_eq_decide.mpr ?_
          dsimp only
          omega
        · have hgoes := of_decide_eq_true hgoes
          have hback : ({ blockTurn reference hypothesis rows lo s with
              i := lo + (blockTurn reference hypothesis rows lo s).i } : Trace) =
                back reference hypothesis { s with i := lo + s.i } := by
            unfold blockTurn back
            by_cases hpos : 0 < s.i
            · have hpred : lo + s.i - 1 = lo + (s.i - 1) := by omega
              rw [turn_shift lo hpos, if_pos hpos, hentries s.i hs.2, hentries (s.i - 1) (by omega)]
              dsimp only
              rw [hpred]
            · -- on the first row only insertions are left
              have hzero : s.i = 0 := by omega
              have hlo : lo = 0 := (hgoes.resolve_left hpos).1
              rw [turn_of_zero hzero, turn_of_zero (by dsimp only; omega)]
          have hutest : ({ s with i := lo + s.i } : Trace).test = true :=
            decide_eq_true (by dsimp only; omega)
          obtain ⟨hkept', hle, -⟩ := hs.1.back hutest
          rw [← hback] at hkept' hle
          refine ⟨⟨hkept', ?_⟩, hback⟩
          have := hs.2
          dsimp only at hle
          omega
      obtain ⟨s₁, hinner, hs₁⟩ := Option.map_eq_some_iff.mp hview
      obtain ⟨hturns, hends⟩ := While.turns_of_loop hloop
      have hends := of_decide_eq_false hends
      -- the block ends on its first row, and the first block at the corner
      have hrow : t₁.i = lo := by omega
      have hnext : ({ s₁ with i := lo } : Trace) = t₁ := by
        have : s₁.i = 0 := by
          rw [← hs₁] at hrow
          dsimp only at hrow
          omega
        rw [← hs₁, this]
        rfl
      have hmore : While.Turns Trace.test (back reference hypothesis) t t₁ :=
        While.Turns.mono (fun u hgoes =>
          decide_eq_true (by have := of_decide_eq_true hgoes; omega)) hturns
      obtain ⟨t', hbackward, hreturns⟩ := ih t₁ hbalanced (by omega) (fun hzero => by omega)
      refine ⟨t', ?_, While.returns_iff.mpr ⟨hmore.trans (While.returns_iff.mp hreturns).1,
        (While.returns_iff.mp hreturns).2⟩⟩
      show Option.bind (blockRows reference hypothesis limit checkpoints lo t.i) _ = _
      rw [hrows]
      show Option.bind (While.whileLoop (blockTest lo) (blockTurn reference hypothesis rows lo)
        (t.i - lo + t.j) { t with i := t.i - lo }) _ = _
      rw [hinner]
      show backward reference hypothesis limit block checkpoints fuel { s₁ with i := lo } = _
      rw [hnext]
      exact hbackward

/-! ## The result -/

theorem lt_typeLimit {n m : ℕ} (h : max n m < 2 ^ 32) : max n m < typeLimit n m := by
  unfold typeLimit
  split <;> omega

theorem typeLimit_le (n m : ℕ) : typeLimit n m ≤ 2 ^ 32 := by
  unfold typeLimit
  split <;> omega

/-- Counts that are returned were packed. -/
theorem lt_of_checkpointedCounts {counts : ℕ × ℕ × ℕ} (hreference : reference ≠ [])
    (hhypothesis : hypothesis ≠ [])
    (h : checkpointedCounts reference hypothesis = some counts) :
    max reference.length hypothesis.length < 2 ^ 32 := by
  unfold checkpointedCounts at h
  dsimp only at h
  rw [if_neg (by simpa using hreference), if_neg (by simpa using hhypothesis)] at h
  obtain ⟨checkpoints, hforward, -⟩ := Option.bind_eq_some_iff.mp h
  have hlt := lt_of_forward hreference hforward
  exact (max_lt hlt.1 hlt.2).trans_le (typeLimit_le _ _)

/-- Packed counts are those of the full backtrace. -/
theorem checkpointedCounts_spec (hreference : reference ≠ []) (hhypothesis : hypothesis ≠ [])
    (h : max reference.length hypothesis.length < 2 ^ 32) :
    ∃ t, Balanced reference hypothesis t ∧ t.test = false ∧
      directCounts reference hypothesis = some t.counts ∧
      checkpointedCounts reference hypothesis = some t.counts := by
  obtain ⟨t, hreturns, hbalanced, hdirect⟩ := directCounts_spec hreference hhypothesis
  refine ⟨t, hbalanced, (While.returns_iff.mp hreturns).2, hdirect, ?_⟩
  have hlimit := lt_typeLimit h
  have hpos := List.length_pos_iff.mpr hreference
  obtain ⟨checkpoints, hforward, hkept⟩ :=
    forward_spec (max 1 (Nat.sqrt reference.length)) hlimit
  obtain ⟨t', hbackward, hreturns'⟩ := backward_spec hlimit hkept reference.length _
    Balanced.start le_rfl (fun hzero => absurd hzero hpos.ne')
  unfold checkpointedCounts
  dsimp only
  rw [if_neg (by simpa using hreference), if_neg (by simpa using hhypothesis), hforward]
  show Option.bind (backward reference hypothesis _ _ checkpoints reference.length _) _ = _
  rw [hbackward, While.returns_unique hreturns hreturns']
  rfl

/-- **The checkpointed counts are the direct ones**, exactly where the reference and the hypothesis
are short enough for a packed cell, or one of them is empty: their sum is the Levenshtein distance,
and they account for the two lengths. -/
theorem counts_agree (reference hypothesis : List α) :
    (∃ subs dels ins, directCounts reference hypothesis = some (subs, dels, ins) ∧
      checkpointedCounts reference hypothesis = some (subs, dels, ins) ∧
      IsDistance reference hypothesis (subs + dels + ins) ∧
      dels ≤ reference.length ∧ reference.length - dels + ins = hypothesis.length) ↔
    reference = [] ∨ hypothesis = [] ∨ max reference.length hypothesis.length < 2 ^ 32 := by
  by_cases hreference : reference = []
  · subst hreference
    refine iff_of_true ⟨0, 0, hypothesis.length, rfl, rfl, ?_, le_rfl, Nat.zero_add _⟩ (.inl rfl)
    rw [Nat.zero_add]
    exact (isDistance_nil hypothesis).symm
  by_cases hhypothesis : hypothesis = []
  · subst hhypothesis
    have hn : ¬ reference.length = 0 := by simpa using hreference
    refine iff_of_true ⟨0, reference.length, 0, if_neg hn, if_neg hn, ?_, le_rfl,
      Nat.sub_self _⟩ (.inr (.inl rfl))
    rw [Nat.zero_add]
    exact isDistance_nil reference
  simp only [hreference, hhypothesis, false_or]
  constructor
  · rintro ⟨subs, dels, ins, -, hcheckpointed, -⟩
    exact lt_of_checkpointedCounts hreference hhypothesis hcheckpointed
  · intro h
    obtain ⟨t, hbalanced, hend, hdirect, hcheckpointed⟩ :=
      checkpointedCounts_spec hreference hhypothesis h
    have hend := of_decide_eq_false hend
    obtain ⟨-, hcost, hdeleted, hlengths⟩ := hbalanced
    have hi : t.i = 0 := by omega
    have hj : t.j = 0 := by omega
    rw [hi, hj, cell_zero_left] at hcost
    refine ⟨t.subs, t.dels, t.ins, hdirect, hcheckpointed, ?_, by omega, by omega⟩
    have hdistance : IsDistance (reference.take reference.length)
        (hypothesis.take hypothesis.length) _ := isDistance_cell le_rfl le_rfl
    rw [List.take_length, List.take_length, ← hcost] at hdistance
    exact hdistance

/-- As many tokens as make a packed cell overflow: the direct counts stand alone. -/
theorem checkpointedCounts_of_long (hreference : reference ≠ []) (hhypothesis : hypothesis ≠ [])
    (h : 2 ^ 32 ≤ hypothesis.length) :
    checkpointedCounts reference hypothesis ≠ directCounts reference hypothesis := by
  intro heq
  obtain ⟨t, -, -, hdirect⟩ := directCounts_spec hreference hhypothesis
  have := lt_of_checkpointedCounts hreference hhypothesis (heq.trans hdirect)
  omega

end Agree

/-- One token against `2 ^ 32` of them. -/
theorem counts_overflow :
    checkpointedCounts [()] (List.replicate (2 ^ 32) ()) ≠
      directCounts [()] (List.replicate (2 ^ 32) ()) :=
  checkpointedCounts_of_long (List.cons_ne_nil _ _)
    (by rw [← List.length_pos_iff, List.length_replicate]; decide)
    (by rw [List.length_replicate])

end Metrics

end Myna
