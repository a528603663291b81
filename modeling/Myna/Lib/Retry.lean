import Mathlib.Logic.Function.Iterate

/-!
# Trying again, a bounded number of times

A loop of turns with a pause between two of them. A turn is done, or has failed for good, or asks
for another one; what the last turn asked for, the loop fails with.

* **`run_eq_ok_iff`** — the loop gives what the first turn that does not ask for another one gives.
-/

namespace Retry

variable {σ α ε : Type*}

/-- How a turn ends. -/
inductive Turn (ε α : Type*)
  | done (a : α)
  | failed (e : ε)
  | again (e : ε)

variable (turn : σ → Turn ε α × σ) (pause : σ → σ)

/-- The turn in `s`, and up to `left` more. -/
def run : ℕ → σ → Except ε α × σ
  | 0, s =>
    match turn s with
    | (.done a, s) => (.ok a, s)
    | (.failed e, s) => (.error e, s)
    | (.again e, s) => (.error e, s)
  | left + 1, s =>
    match turn s with
    | (.done a, s) => (.ok a, s)
    | (.failed e, s) => (.error e, s)
    | (.again _, s) => run left (pause s)

/-- The state in which turn `n` starts. -/
def start (n : ℕ) (s : σ) : σ := (fun s => pause (turn s).2)^[n] s

/-- Every turn before `n` asks for another one. -/
def Asks (n : ℕ) (s : σ) : Prop := ∀ m < n, ∃ e, (turn (start turn pause m s)).1 = .again e

variable {turn pause} {s : σ} {n left : ℕ}

theorem start_succ : start turn pause (n + 1) s = start turn pause n (pause (turn s).2) := rfl

theorem asks_zero : Asks turn pause 0 s := fun _ h => absurd h (Nat.not_lt_zero _)

theorem asks_succ_iff : Asks turn pause (n + 1) s ↔
    (∃ e, (turn s).1 = .again e) ∧ Asks turn pause n (pause (turn s).2) := by
  constructor
  · intro h
    exact ⟨h 0 (Nat.succ_pos n), fun m hm => h (m + 1) (Nat.succ_lt_succ hm)⟩
  · rintro ⟨hfirst, hrest⟩ m hm
    cases m with
    | zero => exact hfirst
    | succ m => exact hrest m (Nat.lt_of_succ_lt_succ hm)

/-- A turn that does not ask for another one is the last one. -/
theorem exists_of_not_again {a : α} (h : ∀ e, (turn s).1 ≠ .again e) :
    (∃ n ≤ left, Asks turn pause n s ∧ (turn (start turn pause n s)).1 = .done a) ↔
      (turn s).1 = .done a := by
  constructor
  · rintro ⟨n, -, hasks, hdone⟩
    cases n with
    | zero => exact hdone
    | succ n =>
      obtain ⟨⟨e, he⟩, -⟩ := asks_succ_iff.mp hasks
      exact absurd he (h e)
  · exact fun hdone => ⟨0, Nat.zero_le _, asks_zero, hdone⟩

/-- **The first turn that does not ask for another one** decides what the loop gives. -/
theorem run_eq_ok_iff {a : α} : (run turn pause left s).1 = .ok a ↔
    ∃ n ≤ left, Asks turn pause n s ∧ (turn (start turn pause n s)).1 = .done a := by
  induction left generalizing s with
  | zero =>
    have hzero : (∃ n ≤ 0, Asks turn pause n s ∧ (turn (start turn pause n s)).1 = .done a) ↔
        (turn s).1 = .done a := by
      constructor
      · rintro ⟨n, hn, -, hdone⟩
        rw [Nat.le_zero.mp hn] at hdone
        exact hdone
      · exact fun hdone => ⟨0, Nat.le_refl 0, asks_zero, hdone⟩
    rw [hzero, run]
    rcases turn s with ⟨answer, next⟩
    cases answer <;> simp
  | succ left ih =>
    rw [run]
    cases hanswer : (turn s).1 with
    | done b =>
      have hpair : turn s = (.done b, (turn s).2) := by rw [← hanswer]
      rw [exists_of_not_again (by simp [hanswer]), hpair]
      simp
    | failed e =>
      have hpair : turn s = (.failed e, (turn s).2) := by rw [← hanswer]
      rw [exists_of_not_again (by simp [hanswer]), hpair]
      simp
    | again e =>
      have hpair : turn s = (.again e, (turn s).2) := by rw [← hanswer]
      rw [hpair]
      refine ih.trans ?_
      -- a turn that asks moves the others on by one
      constructor
      · rintro ⟨n, hn, hasks, hdone⟩
        exact ⟨n + 1, Nat.succ_le_succ hn, asks_succ_iff.mpr ⟨⟨e, hanswer⟩, hasks⟩, hdone⟩
      · rintro ⟨n, hn, hasks, hdone⟩
        cases n with
        | zero => cases hanswer.symm.trans hdone
        | succ n => exact ⟨n, Nat.le_of_succ_le_succ hn, (asks_succ_iff.mp hasks).2, hdone⟩

end Retry
