import Mathlib.Data.Finset.Insert
import Mathlib.Logic.Relation

/-!
# Reachability by one pass over the edges

One pass over a list of edges that adds the target of each edge whose source has been reached. When
no edge leads back to the source of an edge at or before it in the list, the pass reaches everything
there is to reach.

* **`Ordered`** — the edges stand in such an order;
* **`mem_reach_iff`** — what the pass reaches is what a chain of edges leads to.
-/

namespace Reach

variable {α : Type*} [DecidableEq α]

/-- The pass over the edges. -/
def reach (edges : List (α × α)) (reached : Finset α) : Finset α :=
  edges.foldl (fun reached e => if e.1 ∈ reached then insert e.2 reached else reached) reached

/-- No edge leads to the source of an edge that does not come after it. -/
def Ordered (edges : List (α × α)) : Prop :=
  edges.Pairwise (fun e e' => e'.2 ≠ e.1) ∧ ∀ e ∈ edges, e.2 ≠ e.1

theorem reach_append (edges more : List (α × α)) (reached : Finset α) :
    reach (edges ++ more) reached = reach more (reach edges reached) :=
  List.foldl_append

theorem subset_reach (edges : List (α × α)) (reached : Finset α) :
    reached ⊆ reach edges reached := by
  induction edges generalizing reached with
  | nil => exact fun _ h => h
  | cons e edges ih =>
    show reached ⊆ reach edges (if e.1 ∈ reached then insert e.2 reached else reached)
    refine subset_trans ?_ (ih _)
    split
    · exact Finset.subset_insert _ _
    · exact fun _ h => h

/-- What no edge leads to is reached only if it was. -/
theorem mem_of_mem_reach {edges : List (α × α)} {reached : Finset α} {a : α}
    (hnone : ∀ e ∈ edges, e.2 ≠ a) (h : a ∈ reach edges reached) : a ∈ reached := by
  induction edges generalizing reached with
  | nil => exact h
  | cons e edges ih =>
    have hstep := ih (fun e' he' => hnone e' (List.mem_cons_of_mem _ he')) h
    dsimp only at hstep
    split at hstep
    · rcases Finset.mem_insert.mp hstep with rfl | hmem
      · exact absurd rfl (hnone e (by simp))
      · exact hmem
    · exact hstep

theorem sound {edges all : List (α × α)} {reached : Finset α} {start : α} (hsub : edges ⊆ all)
    (hreached : ∀ a ∈ reached, Relation.ReflTransGen (fun a b => (a, b) ∈ all) start a) :
    ∀ a ∈ reach edges reached, Relation.ReflTransGen (fun a b => (a, b) ∈ all) start a := by
  induction edges generalizing reached with
  | nil => exact hreached
  | cons e edges ih =>
    refine ih (fun _ h => hsub (List.mem_cons_of_mem _ h)) ?_
    intro a ha
    dsimp only at ha
    split at ha
    case isTrue hmem =>
      rcases Finset.mem_insert.mp ha with rfl | ha
      · exact (hreached _ hmem).tail (hsub (by simp))
      · exact hreached a ha
    case isFalse => exact hreached a ha

/-- **One pass over edges in order reaches what a chain of edges leads to.** Induction on the
chain: where its last edge stands, its source has been reached already. -/
theorem mem_reach_iff {edges : List (α × α)} (hordered : Ordered edges) {start a : α} :
    a ∈ reach edges {start} ↔ Relation.ReflTransGen (fun a b => (a, b) ∈ edges) start a := by
  constructor
  · refine sound (fun _ h => h) ?_ a
    intro b hb
    rw [Finset.mem_singleton.mp hb]
  · intro h
    induction h with
    | refl => exact subset_reach _ _ (Finset.mem_singleton_self start)
    | @tail b c _ hedge ih =>
      obtain ⟨before, after, hsplit⟩ := List.append_of_mem hedge
      have hbefore : b ∈ reach before {start} := by
        rw [hsplit, reach_append] at ih
        refine mem_of_mem_reach ?_ ih
        intro e he
        rcases List.mem_cons.mp he with rfl | he
        · exact hordered.2 _ hedge
        · have hpair := hordered.1
          rw [hsplit, List.pairwise_append] at hpair
          exact (List.pairwise_cons.mp hpair.2.1).1 e he
      rw [hsplit, reach_append]
      refine subset_reach after _ ?_
      show c ∈ if b ∈ reach before {start} then _ else _
      rw [if_pos hbefore]
      exact Finset.mem_insert_self _ _

end Reach
