import Mathlib.Logic.Function.Iterate
import Mathlib.Logic.Relation
import Mathlib.Order.WellFounded

/-!
# Step systems — invariants, lockstep runs and leaving a region

The rules every state machine of this development is reasoned with. A deterministic machine is a
function `step : σ → σ` and its run is the iterate `step^[n]`; a concurrent one is a relation and
its runs are the reflexive transitive closure.

* **`Keeps`** / **`Keeps.run`** — what one step preserves, every state of the run has;
* **`Keeps.run_under`** — the same where the step lemma leans on another invariant;
* **`lockstep`** — two machines whose steps preserve a relation stay related along their runs;
* **`exists_leave`** — a region in which every step lowers a well-founded measure is left;
* **`reachable_induction`** — the invariant rule of a step relation;
* **`stays_or_leaves`** — a run stays in a region, or has a step that leaves it;
* **`run_add_measure_le`** — a run has no more steps than a measure that each of them lowers.
-/

namespace StepSystem

variable {σ τ : Type*}

/-! ## Deterministic machines -/

/-- Every step of `step` preserves `I`. -/
def Keeps (step : σ → σ) (I : σ → Prop) : Prop :=
  ∀ s, I s → I (step s)

/-- **The invariant rule.** What one step preserves holds along the whole run. -/
theorem Keeps.run {step : σ → σ} {I : σ → Prop} (h : Keeps step I) {s : σ} (hs : I s) :
    ∀ n, I (step^[n] s) := by
  intro n
  induction n with
  | zero => exact hs
  | succ n ih =>
    rw [Function.iterate_succ_apply']
    exact h _ ih

/-- The invariant rule where preserving `J` needs the established invariant `I`. -/
theorem Keeps.run_under {step : σ → σ} {I J : σ → Prop} (hI : Keeps step I)
    (hJ : ∀ s, I s → J s → J (step s)) {s : σ} (his : I s) (hjs : J s) :
    ∀ n, J (step^[n] s) := by
  have hboth : Keeps step (fun s => I s ∧ J s) := fun t ht => ⟨hI t ht.1, hJ t ht.1 ht.2⟩
  exact fun n => (hboth.run ⟨his, hjs⟩ n).2

/-- **Lockstep.** Machines whose steps preserve a relation between their states stay related
along their runs. -/
theorem lockstep {f : σ → σ} {g : τ → τ} {R : σ → τ → Prop}
    (h : ∀ s t, R s t → R (f s) (g t)) {s : σ} {t : τ} (hst : R s t) :
    ∀ n, R (f^[n] s) (g^[n] t) := by
  intro n
  induction n with
  | zero => exact hst
  | succ n ih =>
    rw [Function.iterate_succ_apply', Function.iterate_succ_apply']
    exact h _ _ ih

/-- **Leaving a region.** If every step that stays inside `P` lowers a well-founded measure, a run
started in the invariant `I` leaves `P`. Induction on the measure. -/
theorem exists_leave {β : Type*} {r : β → β → Prop} (hwf : WellFounded r) {step : σ → σ}
    {I P : σ → Prop} (hI : Keeps step I) (μ : σ → β)
    (hμ : ∀ s, I s → P s → P (step s) → r (μ (step s)) (μ s)) :
    ∀ s, I s → ∃ n, ¬ P (step^[n] s) ∧ ∀ m < n, P (step^[m] s) := by
  intro s
  induction s using (InvImage.wf μ hwf).induction with
  | _ s ih
  intro his
  by_cases hp : P s
  · by_cases hp' : P (step s)
    · obtain ⟨n, hn, hlt⟩ := ih (step s) (hμ s his hp hp') (hI s his)
      refine ⟨n + 1, by rwa [Function.iterate_succ_apply], ?_⟩
      intro m hm
      cases m with
      | zero => exact hp
      | succ m =>
        rw [Function.iterate_succ_apply]
        exact hlt m (by omega)
    · refine ⟨1, hp', ?_⟩
      intro m hm
      obtain rfl : m = 0 := by omega
      exact hp
  · exact ⟨0, hp, fun m hm => absurd hm (by omega)⟩

/-! ## Concurrent machines -/

/-- The states a step relation reaches from `init`. -/
def Reachable (Step : σ → σ → Prop) (init s : σ) : Prop :=
  Relation.ReflTransGen Step init s

/-- **The invariant rule of a step relation.** -/
theorem reachable_induction {Step : σ → σ → Prop} {I : σ → Prop} {init s : σ}
    (hs : Reachable Step init s) (h0 : I init) (hstep : ∀ s t, I s → Step s t → I t) : I s := by
  induction hs with
  | refl => exact h0
  | tail _ hst ih => exact hstep _ _ ih hst

/-- A run that starts in a region stays in it, or takes a step that leaves it. -/
theorem stays_or_leaves {Step : σ → σ → Prop} {P : σ → Prop} {s t : σ}
    (hrun : Relation.ReflTransGen Step s t) (hs : P s) :
    P t ∨ ∃ a b, Relation.ReflTransGen Step s a ∧ P a ∧ Step a b ∧ ¬ P b ∧
      Relation.ReflTransGen Step b t := by
  induction hrun with
  | refl => exact .inl hs
  | @tail b c hrun hstep ih =>
    rcases ih with hb | ⟨x, y, hx, hpx, hxy, hpy, hyb⟩
    · by_cases hc : P c
      · exact .inl hc
      · exact .inr ⟨b, c, hrun, hb, hstep, hc, .refl⟩
    · exact .inr ⟨x, y, hx, hpx, hxy, hpy, hyb.tail hstep⟩

/-- A run has no more steps than a measure that each of them lowers. -/
theorem run_add_measure_le {Step : σ → σ → Prop} {μ : σ → ℕ}
    (hμ : ∀ s t, Step s t → μ t < μ s) {run : ℕ → σ} {n : ℕ}
    (hrun : ∀ i < n, Step (run i) (run (i + 1))) : n + μ (run n) ≤ μ (run 0) := by
  induction n with
  | zero => exact (Nat.zero_add _).le
  | succ n ih =>
    have hlast := hμ _ _ (hrun n (Nat.lt_succ_self n))
    have hrest := ih fun i hi => hrun i (Nat.lt_succ_of_lt hi)
    omega

end StepSystem
