import Mathlib.Logic.Relation
import Mathlib.Order.WellFounded

/-!
# While loops

A loop over a state of its own: a test and a body. Its runs are bounded by a fuel, and a loop
returns what it comes to with enough of it.

* **`whileLoop`** — the loop;
* **`Turns`** — the states at the head of the loop;
* **`returns_iff`** — what a loop returns is the head at which the test fails;
* **`total`** — the rule of total correctness;
* **`lockstep`** — two loops whose bodies keep a relation.
-/

namespace While

variable {σ τ : Type*}

/-- `while test: body`, for at most `fuel` turns. -/
def whileLoop (test : σ → Bool) (body : σ → σ) : ℕ → σ → Option σ
  | 0, s => if test s then none else some s
  | fuel + 1, s => if test s then whileLoop test body fuel (body s) else some s

/-- With enough fuel the loop ends in `s'`. -/
def Returns (test : σ → Bool) (body : σ → σ) (s s' : σ) : Prop :=
  ∃ fuel, whileLoop test body fuel s = some s'

/-- The loop started in `s` comes to its head in `s'`. -/
def Turns (test : σ → Bool) (body : σ → σ) : σ → σ → Prop :=
  Relation.ReflTransGen fun s s' => test s = true ∧ s' = body s

variable {test : σ → Bool} {body : σ → σ} {s s' : σ}

theorem returns_of_not_test (h : test s = false) : Returns test body s s :=
  ⟨0, by simp [whileLoop, h]⟩

theorem Returns.turn (ht : test s = true) (h : Returns test body (body s) s') :
    Returns test body s s' := by
  obtain ⟨fuel, hfuel⟩ := h
  exact ⟨fuel + 1, by simpa [whileLoop, ht] using hfuel⟩

/-- Induction on the turns, the first one first. -/
theorem returns_of_turns (h : Turns test body s s') (hend : test s' = false) :
    Returns test body s s' := by
  induction h using Relation.ReflTransGen.head_induction_on with
  | refl => exact returns_of_not_test hend
  | head hstep _ ih =>
    obtain ⟨ht, rfl⟩ := hstep
    exact Returns.turn ht ih

/-- The turns of a loop are those of one that goes on for longer. -/
theorem Turns.mono {test' : σ → Bool} (hmore : ∀ s, test s = true → test' s = true)
    (h : Turns test body s s') : Turns test' body s s' := by
  induction h with
  | refl => exact .refl
  | tail _ hstep ih => exact ih.tail ⟨hmore _ hstep.1, hstep.2⟩

theorem turns_of_loop : ∀ {fuel : ℕ} {s : σ}, whileLoop test body fuel s = some s' →
    Turns test body s s' ∧ test s' = false
  | 0, s, h => by
    unfold whileLoop at h
    split at h
    · cases h
    · next hend =>
      obtain rfl := Option.some.inj h
      exact ⟨.refl, by simpa using hend⟩
  | fuel + 1, s, h => by
    unfold whileLoop at h
    split at h
    · next ht =>
      obtain ⟨hturns, hend⟩ := turns_of_loop h
      exact ⟨hturns.head ⟨ht, rfl⟩, hend⟩
    · next hend =>
      obtain rfl := Option.some.inj h
      exact ⟨.refl, by simpa using hend⟩

/-- **A loop returns the head at which its test fails.** -/
theorem returns_iff : Returns test body s s' ↔ Turns test body s s' ∧ test s' = false :=
  ⟨fun ⟨_, h⟩ => turns_of_loop h, fun h => returns_of_turns h.1 h.2⟩

/-- **Total correctness.** An invariant that the body keeps, and a measure that it lowers. -/
theorem total (test : σ → Bool)
    (body : σ → σ) {β : Type*} {r : β → β → Prop} (hwf : WellFounded r) {I : σ → Prop} (μ : σ → β)
    (hturn : ∀ s, I s → test s = true → I (body s) ∧ r (μ (body s)) (μ s)) :
    ∀ s, I s → ∃ s', Returns test body s s' ∧ I s' ∧ test s' = false := by
  intro s
  induction s using (InvImage.wf μ hwf).induction with
  | _ s ih
  intro hs
  cases ht : test s with
  | false => exact ⟨s, returns_of_not_test ht, hs, ht⟩
  | true =>
    obtain ⟨hkept, hless⟩ := hturn s hs ht
    obtain ⟨s', hreturns, hs', hend⟩ := ih (body s) hless hkept
    exact ⟨s', hreturns.turn ht, hs', hend⟩

/-- As many turns as the measure says are enough. -/
theorem loop_of_measure (test : σ → Bool) (body : σ → σ) {I : σ → Prop} (μ : σ → ℕ)
    (hturn : ∀ s, I s → test s = true → I (body s) ∧ μ (body s) < μ s) :
    ∀ fuel s, I s → μ s ≤ fuel → ∃ s', whileLoop test body fuel s = some s' ∧ I s' := by
  intro fuel
  induction fuel with
  | zero =>
    intro s hs hμ
    cases ht : test s with
    | false => exact ⟨s, by simp [whileLoop, ht], hs⟩
    | true => exact absurd (hturn s hs ht).2 (by omega)
  | succ fuel ih =>
    intro s hs hμ
    unfold whileLoop
    cases ht : test s with
    | false => exact ⟨s, rfl, hs⟩
    | true =>
      obtain ⟨hkept, hless⟩ := hturn s hs ht
      exact ih (body s) hkept (by omega)

/-- What a loop ends in does not depend on the fuel. -/
theorem returns_unique {s'' : σ} (h : Returns test body s s') (h' : Returns test body s s'') :
    s' = s'' := by
  obtain ⟨hturns, hend⟩ := returns_iff.mp h
  induction hturns using Relation.ReflTransGen.head_induction_on with
  | refl =>
    obtain ⟨hturns', -⟩ := returns_iff.mp h'
    rcases Relation.ReflTransGen.cases_head hturns' with heq | ⟨_, ⟨ht, -⟩, -⟩
    · exact heq
    · rw [hend] at ht
      cases ht
  | head hstep hrest ih =>
    obtain ⟨ht, rfl⟩ := hstep
    obtain ⟨hturns', hend'⟩ := returns_iff.mp h'
    refine ih (returns_iff.mpr ⟨hrest, hend⟩) (returns_iff.mpr ⟨?_, hend'⟩)
    rcases Relation.ReflTransGen.cases_head hturns' with heq | ⟨_, ⟨-, rfl⟩, hturns'⟩
    · rw [heq, hend'] at ht
      cases ht
    · exact hturns'

/-- **Lockstep.** Related loops take the same turns and come to related ends. -/
theorem lockstep {test' : τ → Bool} {body' : τ → τ} {view : σ → τ} {I : σ → Prop}
    (htest : ∀ s, I s → test s = test' (view s))
    (hbody : ∀ s, I s → test s = true → I (body s) ∧ view (body s) = body' (view s)) :
    ∀ fuel s, I s → (whileLoop test body fuel s).map view
      = whileLoop test' body' fuel (view s) := by
  intro fuel
  induction fuel with
  | zero =>
    intro s hs
    unfold whileLoop
    rw [htest s hs]
    cases test' (view s) <;> rfl
  | succ fuel ih =>
    intro s hs
    unfold whileLoop
    rw [htest s hs]
    cases ht : test' (view s) with
    | false => rfl
    | true =>
      obtain ⟨hkept, hview⟩ := hbody s hs (by rw [htest s hs, ht])
      show (whileLoop test body fuel (body s)).map view
        = whileLoop test' body' fuel (body' (view s))
      rw [ih (body s) hkept, hview]

end While
