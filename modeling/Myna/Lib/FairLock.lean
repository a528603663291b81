import Mathlib.Data.List.Basic

/-!
# A fair lock

A lock is granted in the order in which it is asked for: at once if it is free and nobody waits for
it, otherwise to the first that waits once it is free. Who has it and who waits for it stand in one
line, that grows at its end alone.

* **`line_ask`**, **`line_take`**, **`line_release`** — what becomes of the line;
* **`pairwise_ask`** — what each in the line has to all who came later.
-/

/-- Who has the lock, and who waits for it, the first first. -/
structure FairLock (ι : Type*) where
  holder : Option ι := none
  waiting : List ι := []
deriving DecidableEq

namespace FairLock

variable {ι : Type*}

def line (lock : FairLock ι) : List ι := lock.holder.toList ++ lock.waiting

def free (lock : FairLock ι) : Bool := lock.holder.isNone && lock.waiting.isEmpty

def ask (lock : FairLock ι) (i : ι) : FairLock ι :=
  if lock.free then { lock with holder := some i } else { lock with waiting := lock.waiting ++ [i] }

/-- The first that waits has the lock, once it is free. -/
def take (lock : FairLock ι) : Option (ι × FairLock ι) :=
  match lock.holder, lock.waiting with
  | none, i :: waiting => some (i, ⟨some i, waiting⟩)
  | _, _ => none

def release (lock : FairLock ι) : FairLock ι := { lock with holder := none }

/-- Whoever waits need not wait any longer. -/
def abandon [DecidableEq ι] (lock : FairLock ι) (i : ι) : FairLock ι :=
  { lock with waiting := lock.waiting.filter fun j => j ≠ i }

variable {lock : FairLock ι} {i : ι}

theorem free_iff : lock.free = true ↔ lock.line = [] := by
  obtain ⟨holder, waiting⟩ := lock
  cases holder <;> cases waiting <;> simp [free, line]

@[simp] theorem holder_release : lock.release.holder = none := rfl

@[simp] theorem waiting_release : lock.release.waiting = lock.waiting := rfl

@[simp] theorem line_release_eq : lock.release.line = lock.waiting := rfl

theorem line_ask : (lock.ask i).line = lock.line ++ [i] := by
  unfold ask
  split
  · rename_i hfree
    have hline := free_iff.mp hfree
    obtain ⟨holder, waiting⟩ := lock
    cases holder with
    | none =>
      obtain rfl : waiting = [] := hline
      rfl
    | some j => cases hline
  · exact (List.append_assoc ..).symm

theorem line_release (h : lock.holder = some i) : lock.line = i :: lock.release.line := by
  unfold line release
  rw [h]
  rfl

theorem holder_ask (h : lock.free = true) : (lock.ask i).holder = some i := by
  unfold ask
  rw [if_pos h]

theorem holder_ask_of_not (h : ¬ lock.free = true) : (lock.ask i).holder = lock.holder := by
  unfold ask
  rw [if_neg h]

/-- Nobody overtakes: the line is as it was, and its first has the lock. -/
theorem line_take {after : FairLock ι} (h : lock.take = some (i, after)) :
    after.line = lock.line ∧ after.holder = some i ∧ lock.holder = none := by
  obtain ⟨holder, waiting⟩ := lock
  cases holder with
  | some j => cases h
  | none =>
    cases waiting with
    | nil => cases h
    | cons j waiting =>
      obtain ⟨rfl, rfl⟩ := Prod.mk.inj (Option.some.inj h)
      exact ⟨rfl, rfl, rfl⟩

theorem exists_take (h : lock.holder = none) (hmem : i ∈ lock.waiting) :
    ∃ j after, lock.take = some (j, after) := by
  obtain ⟨holder, waiting⟩ := lock
  obtain rfl : holder = none := h
  cases waiting with
  | nil => cases hmem
  | cons j waiting => exact ⟨j, _, rfl⟩

/-- What everybody in the line has to the one that comes next, all have to who came after them. -/
theorem pairwise_ask {R : ι → ι → Prop} (h : lock.line.Pairwise R) (hi : ∀ j ∈ lock.line, R j i) :
    (lock.ask i).line.Pairwise R := by
  rw [line_ask]
  refine List.pairwise_append.mpr ⟨h, List.pairwise_singleton _ _, fun j hj k hk => ?_⟩
  rw [List.mem_singleton.mp hk]
  exact hi j hj

theorem line_abandon_sublist [DecidableEq ι] : (lock.abandon i).line.Sublist lock.line :=
  List.Sublist.append_left List.filter_sublist _

theorem notMem_abandon [DecidableEq ι] : i ∉ (lock.abandon i).waiting := by
  intro hmem
  simpa using (List.mem_filter.mp hmem).2

end FairLock
