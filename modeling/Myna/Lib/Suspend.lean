import Mathlib.Logic.Basic

/-!
# Computations that wait

A computation over a state of its own that may be left waiting, where what it has done to the state
by then stays. The postcondition of a triple speaks of both ends: the value that comes back, and the
wait that does not end.

* **`Suspend`** — the monad;
* **`Triple`** — what a computation started in `P` comes to;
* **`Triple.bind`** — a wait in the first half is a wait of the whole.
-/

/-- A state computation; it comes back with a value, or is left waiting. -/
def Suspend (σ α : Type) : Type := σ → Option α × σ

namespace Suspend

variable {σ α β : Type}

def ret (a : α) : Suspend σ α := fun s => (some a, s)

def andThen (x : Suspend σ α) (f : α → Suspend σ β) : Suspend σ β := fun s =>
  match x s with
  | (some a, s') => f a s'
  | (none, s') => (none, s')

instance : Monad (Suspend σ) where
  pure := ret
  bind := andThen

/-- The state as it is. -/
def get : Suspend σ σ := fun s => (some s, s)

def modify (f : σ → σ) : Suspend σ Unit := fun s => (some (), f s)

/-- The state after a run. -/
def after (x : Suspend σ α) (s : σ) : σ := (x s).2

theorem bind_apply (x : Suspend σ α) (f : α → Suspend σ β) (s : σ) :
    (x >>= f) s = match x s with
      | (some a, s') => f a s'
      | (none, s') => (none, s') := rfl

/-- Every run from `P` ends in `Q`. -/
def Triple (P : σ → Prop) (x : Suspend σ α) (Q : Option α → σ → Prop) : Prop :=
  ∀ s, P s → Q (x s).1 (x s).2

/-- A postcondition that says `R` of a wait that does not end. -/
def Post (R : σ → Prop) (Q : α → σ → Prop) : Option α → σ → Prop
  | some a, s => Q a s
  | none, s => R s

namespace Triple

variable {P P' R R' : σ → Prop} {x : Suspend σ α} {f : α → Suspend σ β} {Q Q' : α → σ → Prop}
  {S : β → σ → Prop}

theorem conseq' (h : Triple P x (Post R Q)) (hpre : ∀ s, P' s → P s) (hwait : ∀ s, R s → R' s)
    (hpost : ∀ a s, Q a s → Q' a s) : Triple P' x (Post R' Q') := by
  intro s hs
  have hq := h s (hpre s hs)
  cases hx : (x s).1 with
  | none =>
    rw [hx] at hq
    exact hwait _ hq
  | some a =>
    rw [hx] at hq
    exact hpost a _ hq

theorem conseq (h : Triple P x (Post R Q)) (hpre : ∀ s, P' s → P s)
    (hpost : ∀ a s, Q a s → Q' a s) : Triple P' x (Post R Q') :=
  h.conseq' hpre (fun _ hr => hr) hpost

theorem ret (a : α) (h : ∀ s, P s → Q a s) : Triple P (pure a : Suspend σ α) (Post R Q) :=
  fun s hs => h s hs

theorem get {Q : σ → σ → Prop} (h : ∀ s, P s → Q s s) :
    Triple P (Suspend.get : Suspend σ σ) (Post R Q) :=
  fun s hs => h s hs

theorem modify {g : σ → σ} {Q : Unit → σ → Prop} (h : ∀ s, P s → Q () (g s)) :
    Triple P (Suspend.modify g) (Post R Q) :=
  fun s hs => h s hs

/-- **A bind.** Where the first half waits for good, so does the whole. -/
theorem bind (hx : Triple P x (Post R Q)) (hf : ∀ a, Triple (Q a) (f a) (Post R S)) :
    Triple P (x >>= f) (Post R S) := by
  intro s hs
  have hq := hx s hs
  rw [bind_apply]
  rcases hr : x s with ⟨_ | a, s'⟩ <;> rw [hr] at hq
  · exact hq
  · exact hf a s' hq

/-- The state that is read is fixed for what follows. -/
theorem get_bind {f : σ → Suspend σ β} (h : ∀ s, P s → Triple (fun t => t = s) (f s) (Post R S)) :
    Triple P (Suspend.get >>= f) (Post R S) := by
  intro s hs
  exact h s hs s rfl

theorem modify_bind {g : σ → σ} {f : Unit → Suspend σ β} {M : σ → Prop}
    (hg : ∀ s, P s → M (g s)) (hf : Triple M (f ()) (Post R S)) :
    Triple P (Suspend.modify g >>= f) (Post R S) := by
  intro s hs
  exact hf (g s) (hg s hs)

end Triple

end Suspend
