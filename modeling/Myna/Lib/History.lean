import Mathlib.Data.List.Basic
import Mathlib.Data.List.Count
import Mathlib.Data.List.Induction

/-!
# Histories — what each event of a run owes to its past

A run leaves a list of events, the newest last. A property of runs such as "no `b` after an `a`",
"`a` at most once" or "whenever `e`, everything before it has been answered" says of each event that
its past allows it.

* **`Lawful P`** — every event satisfies `P` with respect to the events before it;
* **`lawful_concat`**, **`Lawful.append`** — a history is extended by events their past allows;
* **`Lawful.countP_le_one`**, **`Lawful.count_le_one`** — a kind of event, or one event, that does
  not repeat occurs at most once.
-/

namespace History

variable {ε : Type*} {P Q : List ε → ε → Prop} {l more : List ε}

/-- Every event of the history is allowed by the events before it. -/
def Lawful (P : List ε → ε → Prop) (l : List ε) : Prop :=
  ∀ past e later, l = past ++ e :: later → P past e

@[simp] theorem lawful_nil : Lawful P [] := fun past e later h => absurd h (by simp)

/-- A history goes on with events that are each allowed by what came before them. -/
theorem Lawful.append (h : Lawful P l)
    (hmore : ∀ done e rest, more = done ++ e :: rest → P (l ++ done) e) : Lawful P (l ++ more) := by
  intro past e later hsplit
  rcases List.append_eq_append_iff.mp hsplit with ⟨done, hpast, hrest⟩ | ⟨rest, hl, hrest⟩
  · rw [hpast]
    exact hmore done e later hrest
  · cases rest with
    | nil =>
      rw [List.nil_append] at hrest
      rw [List.append_nil] at hl
      subst hl
      have hfirst := hmore [] e later hrest.symm
      rwa [List.append_nil] at hfirst
    | cons e' rest =>
      obtain ⟨rfl, -⟩ := List.cons.inj hrest
      exact h past e rest hl

/-- Events that any past allows. -/
theorem Lawful.append_free (h : Lawful P l) (hmore : ∀ e ∈ more, ∀ past, P past e) :
    Lawful P (l ++ more) :=
  h.append fun done e rest hsplit => hmore e (by rw [hsplit]; simp) _

/-- One more event. -/
theorem lawful_concat {e : ε} : Lawful P (l ++ [e]) ↔ Lawful P l ∧ P l e := by
  constructor
  · intro h
    refine ⟨fun past e' later hl => h past e' (later ++ [e]) ?_, h l e [] rfl⟩
    rw [hl, List.append_assoc, List.cons_append]
  · rintro ⟨h, he⟩
    refine h.append fun done e' rest hsplit => ?_
    cases done with
    | nil =>
      obtain ⟨rfl, -⟩ := List.cons.inj hsplit
      rwa [List.append_nil]
    | cons a done => simp at hsplit

theorem Lawful.mono (h : Lawful P l) (hPQ : ∀ past e, P past e → Q past e) : Lawful Q l :=
  fun past e later hl => hPQ past e (h past e later hl)

/-- Where no event of a kind has one of its kind in its past, there is at most one. -/
theorem Lawful.countP_le_one (h : Lawful P l) {p : ε → Bool}
    (hP : ∀ past e, p e → P past e → ∀ b ∈ past, ¬ p b) : l.countP p ≤ 1 := by
  induction l using List.reverseRecOn with
  | nil => simp
  | append_singleton l e ih =>
    obtain ⟨hl, he⟩ := lawful_concat.mp h
    rw [List.countP_append, List.countP_singleton]
    by_cases hpe : p e = true
    · have hnone : l.countP p = 0 := List.countP_eq_zero.mpr (hP l e hpe he)
      exact Nat.le_of_eq (by rw [hnone, if_pos hpe])
    · rw [if_neg hpe]
      exact ih hl

/-- An event that its past never holds already occurs at most once. -/
theorem Lawful.count_le_one [DecidableEq ε] (h : Lawful P l) {a : ε}
    (hP : ∀ past, P past a → a ∉ past) : l.count a ≤ 1 := by
  refine h.countP_le_one fun past e he hpast b hb hpb => ?_
  obtain rfl : e = a := by simpa using he
  obtain rfl : b = e := by simpa using hpb
  exact hP past hpast hb

end History
