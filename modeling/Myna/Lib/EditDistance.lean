import Mathlib.Order.Bounds.Basic
import Mathlib.Data.List.Basic

/-!
# Edit distance

A list becomes another by keeping, substituting, deleting and inserting elements. The Levenshtein
distance is the least number of edits that are not a keep.

* **`Edits`** — the edits, front to back;
* **`Edits.symm`**, **`Edits.append`**, **`Edits.reverse`** — how they compose;
* **`IsDistance`** — the least of them;
* **`isDistance_cons`** — the recurrence of the dynamic programme.
-/

namespace EditDistance

variable {α : Type*}

/-- `n` edits that are not a keep turn the first list into the second. -/
inductive Edits : ℕ → List α → List α → Prop
  | nil : Edits 0 [] []
  | keep {n xs ys} (a : α) (h : Edits n xs ys) : Edits n (a :: xs) (a :: ys)
  | substitute {n xs ys} (a b : α) (h : Edits n xs ys) : Edits (n + 1) (a :: xs) (b :: ys)
  | delete {n xs ys} (a : α) (h : Edits n xs ys) : Edits (n + 1) (a :: xs) ys
  | insert {n xs ys} (b : α) (h : Edits n xs ys) : Edits (n + 1) xs (b :: ys)

variable {n m : ℕ} {xs ys xs' ys' : List α}

theorem Edits.symm (h : Edits n xs ys) : Edits n ys xs := by
  induction h with
  | nil => exact .nil
  | keep a _ ih => exact .keep a ih
  | substitute a b _ ih => exact .substitute b a ih
  | delete a _ ih => exact .insert a ih
  | insert b _ ih => exact .delete b ih

theorem Edits.append (h : Edits n xs ys) (h' : Edits m xs' ys') :
    Edits (n + m) (xs ++ xs') (ys ++ ys') := by
  induction h with
  | nil => rwa [Nat.zero_add]
  | keep a _ ih => exact .keep a ih
  | substitute a b _ ih => rw [Nat.succ_add]; exact .substitute a b ih
  | delete a _ ih => rw [Nat.succ_add]; exact .delete a ih
  | insert b _ ih => rw [Nat.succ_add]; exact .insert b ih

theorem Edits.reverse (h : Edits n xs ys) : Edits n xs.reverse ys.reverse := by
  induction h with
  | nil => exact .nil
  | keep a _ ih =>
    rw [List.reverse_cons, List.reverse_cons]
    exact ih.append (.keep a .nil)
  | substitute a b _ ih =>
    rw [List.reverse_cons, List.reverse_cons]
    exact ih.append (.substitute a b .nil)
  | @delete n xs ys a _ ih =>
    rw [List.reverse_cons, ← List.append_nil (List.reverse ys)]
    exact ih.append (.delete a .nil)
  | @insert n xs ys b _ ih =>
    rw [List.reverse_cons, ← List.append_nil (List.reverse xs)]
    exact ih.append (.insert b .nil)

theorem edits_delete (xs : List α) : Edits xs.length xs [] := by
  induction xs with
  | nil => exact .nil
  | cons a xs ih => exact .delete a ih

/-- Edits to or from an element more are one more edit without it. -/
theorem Edits.shorter {b : α} (h : Edits n xs (b :: ys)) : ∃ k ≤ n + 1, Edits k xs ys := by
  generalize htarget : b :: ys = target at h
  induction h generalizing ys with
  | nil => cases htarget
  | keep a h _ =>
    cases htarget
    exact ⟨_, le_rfl, .delete b h⟩
  | substitute a _ h _ =>
    cases htarget
    exact ⟨_, Nat.le_succ _, .delete a h⟩
  | delete a _ ih =>
    obtain ⟨k, hk, hedits⟩ := ih htarget
    exact ⟨k + 1, Nat.succ_le_succ hk, .delete a hedits⟩
  | insert _ h _ =>
    cases htarget
    exact ⟨_, (Nat.le_succ _).trans (Nat.le_succ _), h⟩

/-- Edits to nothing delete everything. -/
theorem Edits.length_le (h : Edits n xs ys) : xs.length ≤ ys.length + n := by
  induction h with
  | nil => exact le_rfl
  | keep a _ ih => simp only [List.length_cons]; omega
  | substitute a b _ ih => simp only [List.length_cons]; omega
  | delete a _ ih => simp only [List.length_cons]; omega
  | insert b _ ih => simp only [List.length_cons]; omega

/-! ## The least number of edits -/

/-- `d` is the Levenshtein distance of the lists. -/
def IsDistance (xs ys : List α) (d : ℕ) : Prop := IsLeast {n | Edits n xs ys} d

theorem IsDistance.symm {d : ℕ} (h : IsDistance xs ys d) : IsDistance ys xs d :=
  ⟨h.1.symm, fun _ hn => h.2 (Edits.symm hn)⟩

theorem IsDistance.reverse {d : ℕ} (h : IsDistance xs.reverse ys.reverse d) :
    IsDistance xs ys d := by
  refine ⟨?_, fun n hn => h.2 (Edits.reverse hn)⟩
  have := Edits.reverse h.1
  rwa [List.reverse_reverse, List.reverse_reverse] at this

theorem isDistance_nil (xs : List α) : IsDistance xs [] xs.length :=
  ⟨edits_delete xs, fun _ hn => (Edits.length_le hn).trans (by simp)⟩

/-- A common first element is kept. -/
theorem isDistance_keep {d : ℕ} (a : α) (h : IsDistance xs ys d) :
    IsDistance (a :: xs) (a :: ys) d := by
  refine ⟨.keep a h.1, fun n hn => ?_⟩
  cases hn with
  | keep _ hn => exact h.2 hn
  | substitute _ _ hn => exact (h.2 hn).trans (Nat.le_succ _)
  | delete _ hn =>
    obtain ⟨k, hk, hedits⟩ := hn.shorter
    exact (h.2 hedits).trans hk
  | insert _ hn =>
    obtain ⟨k, hk, hedits⟩ := hn.symm.shorter
    exact (h.2 hedits.symm).trans hk

/-- Different first elements: the best of the three edits. -/
theorem isDistance_edit {a b : α} (hne : a ≠ b) {diagonal up left : ℕ}
    (hdiagonal : IsDistance xs ys diagonal) (hup : IsDistance xs (b :: ys) up)
    (hleft : IsDistance (a :: xs) ys left) :
    IsDistance (a :: xs) (b :: ys) (1 + min (min diagonal up) left) := by
  constructor
  · rcases Nat.le_total (min diagonal up) left with hle | hle
    · rw [Nat.min_eq_left hle, Nat.add_comm]
      rcases Nat.le_total diagonal up with hle' | hle'
      · rw [Nat.min_eq_left hle']
        exact .substitute a b hdiagonal.1
      · rw [Nat.min_eq_right hle']
        exact .delete a hup.1
    · rw [Nat.min_eq_right hle, Nat.add_comm]
      exact .insert b hleft.1
  · intro n hn
    cases hn with
    | keep _ _ => exact absurd rfl hne
    | substitute _ _ hn =>
      have := hdiagonal.2 hn
      omega
    | delete _ hn =>
      have := hup.2 hn
      omega
    | insert _ hn =>
      have := hleft.2 hn
      omega

/-- The recurrence, with an edit of the first elements that costs nothing where they agree. -/
theorem isDistance_cons [DecidableEq α] (a b : α) {diagonal up left : ℕ}
    (hdiagonal : IsDistance xs ys diagonal) (hup : IsDistance xs (b :: ys) up)
    (hleft : IsDistance (a :: xs) ys left) :
    IsDistance (a :: xs) (b :: ys)
      (min (min (up + 1) (left + 1)) (diagonal + if a = b then 0 else 1)) := by
  by_cases hab : a = b
  · subst hab
    obtain ⟨k, hk, hedits⟩ := Edits.shorter hup.1
    obtain ⟨k', hk', hedits'⟩ := Edits.shorter hleft.1.symm
    have hle := (hdiagonal.2 hedits).trans hk
    have hle' := (hdiagonal.2 hedits'.symm).trans hk'
    have hmin : min (min (up + 1) (left + 1)) (diagonal + if a = a then 0 else 1) = diagonal := by
      rw [if_pos rfl]
      omega
    rw [hmin]
    exact isDistance_keep a hdiagonal
  · have hmin : min (min (up + 1) (left + 1)) (diagonal + if a = b then 0 else 1) =
        1 + min (min diagonal up) left := by
      rw [if_neg hab]
      omega
    rw [hmin]
    exact isDistance_edit hab hdiagonal hup hleft

theorem IsDistance.unique {d d' : ℕ} (h : IsDistance xs ys d) (h' : IsDistance xs ys d') :
    d = d' :=
  IsLeast.unique h h'

theorem Edits.eq_of_zero (h : Edits 0 xs ys) : xs = ys := by
  generalize hn : 0 = n at h
  induction h with
  | nil => rfl
  | keep a _ ih => rw [ih hn]
  | substitute => cases hn
  | delete => cases hn
  | insert => cases hn

/-- Only a list itself is at no distance. -/
theorem isDistance_zero_iff : IsDistance xs ys 0 ↔ xs = ys := by
  constructor
  · exact fun h => Edits.eq_of_zero h.1
  · rintro rfl
    refine ⟨?_, fun _ _ => Nat.zero_le _⟩
    induction xs with
    | nil => exact .nil
    | cons a xs ih => exact .keep a ih

end EditDistance
