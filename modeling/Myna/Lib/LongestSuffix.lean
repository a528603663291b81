import Mathlib.Data.List.Infix
import Mathlib.Data.List.Basic

/-!
# The longest suffix of a text in a set of words

The state of a matcher that reads a text piece by piece, over a set `P` of words that hold partial
matches: the longest suffix of the text in `P`.

* **`LongestSuffix.push`** — after one more piece it is found among the suffixes in `P` of the one
  before, whenever every match that ends with the piece was a match before it;
* **`findSome?_tails`** — going down the suffixes, the longest first, stops at the longest one.
-/

variable {α : Type*}

/-- `p` is the longest suffix of `text` in `P`. -/
structure LongestSuffix (P : List α → Prop) (text p : List α) : Prop where
  mem : P p
  suffix : p <:+ text
  longest : ∀ q, P q → q <:+ text → q <:+ p

namespace LongestSuffix

variable {P : List α → Prop} {text p q w : List α}

theorem unique (h : LongestSuffix P text p) (h' : LongestSuffix P text q) : p = q :=
  (h'.longest p h.mem h.suffix).eq_of_length_le (h.longest q h'.mem h'.suffix).length_le

/-- The suffixes in `P` are those of the longest one. -/
theorem suffix_iff (h : LongestSuffix P text p) (hq : P q) : q <:+ text ↔ q <:+ p :=
  ⟨h.longest q hq, fun hsuffix => hsuffix.trans h.suffix⟩

/-- **One more piece**: the longest suffix that goes on with it. -/
theorem push (h : LongestSuffix P text p)
    (hsplit : ∀ r, P r → r <:+ text ++ w → r ≠ [] → ∃ q, P q ∧ q <:+ text ∧ r = q ++ w)
    (hq : LongestSuffix (fun q => P q ∧ P (q ++ w)) p q) :
    LongestSuffix P (text ++ w) (q ++ w) := by
  refine ⟨hq.mem.2, List.suffix_append_self_iff.mpr (hq.suffix.trans h.suffix), ?_⟩
  intro r hr hsuffix
  by_cases hnil : r = []
  · rw [hnil]
    exact List.nil_suffix
  · obtain ⟨q', hq', hsuffix', rfl⟩ := hsplit r hr hsuffix hnil
    exact List.suffix_append_self_iff.mpr
      (hq.longest q' ⟨hq', hr⟩ (h.longest q' hq' hsuffix'))

/-- One more piece with which nothing goes on. -/
theorem drop (h : LongestSuffix P text p) (hnil : P [])
    (hsplit : ∀ r, P r → r <:+ text ++ w → r ≠ [] → ∃ q, P q ∧ q <:+ text ∧ r = q ++ w)
    (hnone : ∀ q, P q → q <:+ p → ¬ P (q ++ w)) : LongestSuffix P (text ++ w) [] := by
  refine ⟨hnil, List.nil_suffix, ?_⟩
  intro r hr hsuffix
  by_cases hr' : r = []
  · rw [hr']
  · obtain ⟨q, hq, hsuffix', rfl⟩ := hsplit r hr hsuffix hr'
    exact absurd hr (hnone q hq (h.longest q hq hsuffix'))

end LongestSuffix

/-- **Going down the suffixes, the longest first, stops at the longest one there is.** -/
theorem findSome?_tails {β : Type*} {f : List α → Option β} {b : β} : ∀ {p : List α},
    p.tails.findSome? f = some b →
      ∃ q, f q = some b ∧ LongestSuffix (fun q => (f q).isSome) p q
  | [], h => by
    rw [List.tails, List.findSome?_singleton] at h
    exact ⟨[], h, by simp [h], List.suffix_rfl, fun q _ hq => hq⟩
  | a :: p, h => by
    rw [List.tails_cons, List.findSome?_cons] at h
    cases hf : f (a :: p) with
    | some c =>
      rw [hf] at h
      exact ⟨a :: p, hf.trans h, by simp [hf], List.suffix_rfl, fun q _ hq => hq⟩
    | none =>
      rw [hf] at h
      obtain ⟨q, hq, hlongest⟩ := findSome?_tails h
      refine ⟨q, hq, hlongest.mem, hlongest.suffix.trans (List.suffix_cons a p), ?_⟩
      intro r hr hsuffix
      rcases List.suffix_cons_iff.mp hsuffix with rfl | hsuffix
      · rw [hf] at hr
        cases hr
      · exact hlongest.longest r hr hsuffix
