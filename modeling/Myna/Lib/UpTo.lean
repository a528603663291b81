import Mathlib.Data.List.Basic
import Mathlib.Order.Basic

/-!
# A list up to the first of its elements that ends it

* **`upTo`** — the elements up to the first that has a property, that one included;
* **`eq_of_prefix`** — a prefix of it that has such an element is all of it.
-/

namespace UpTo

variable {α β : Type*} (p : α → Bool)

def upTo : List α → List α
  | [] => []
  | a :: rest => if p a then [a] else a :: upTo rest

variable {p} {l more : List α}

theorem upTo_append (h : ∀ a ∈ l, p a = false) (more : List α) :
    upTo p (l ++ more) = l ++ upTo p more := by
  induction l with
  | nil => rfl
  | cons a l ih =>
    rw [List.forall_mem_cons] at h
    show (if p a then [a] else a :: upTo p (l ++ more)) = _
    rw [if_neg (by rw [h.1]; exact Bool.false_ne_true), ih h.2]
    rfl

theorem upTo_append_of_mem {a : α} (ha : a ∈ l) (hp : p a = true) (more : List α) :
    upTo p (l ++ more) = upTo p l := by
  induction l with
  | nil => cases ha
  | cons b l ih =>
    show (if p b then [b] else b :: upTo p (l ++ more)) = if p b then [b] else b :: upTo p l
    by_cases hb : p b = true
    · rw [if_pos hb, if_pos hb]
    · rw [if_neg hb, if_neg hb, ih]
      rcases List.mem_cons.mp ha with rfl | hmem
      · exact absurd hp hb
      · exact hmem

theorem upTo_eq_self (h : ∀ a ∈ l, p a = false) : upTo p l = l := by
  have hl := upTo_append h []
  rwa [List.append_nil, upTo, List.append_nil] at hl

theorem upTo_map (f : β → α) (l : List β) :
    upTo p (l.map f) = (upTo (fun b => p (f b)) l).map f := by
  induction l with
  | nil => rfl
  | cons b l ih =>
    show (if p (f b) then [f b] else f b :: upTo p (l.map f)) =
      List.map f (if p (f b) then [b] else b :: upTo (fun b => p (f b)) l)
    split
    · rfl
    · rw [ih]
      rfl

/-- Induction on what is ended: the element with the property can only be its last. -/
theorem eq_of_prefix (h : l <+: upTo p more) {a : α} (ha : a ∈ l) (hp : p a = true) :
    l = upTo p more := by
  induction more generalizing l with
  | nil => exact List.prefix_nil.mp h
  | cons b more ih =>
    cases l with
    | nil => cases ha
    | cons c l =>
      by_cases hb : p b = true
      · rw [show upTo p (b :: more) = [b] from if_pos hb] at h ⊢
        obtain ⟨rfl, hnil⟩ := List.cons_prefix_cons.mp h
        rw [List.prefix_nil.mp hnil]
      · rw [show upTo p (b :: more) = b :: upTo p more from if_neg hb] at h ⊢
        obtain ⟨rfl, hrest⟩ := List.cons_prefix_cons.mp h
        rcases List.mem_cons.mp ha with rfl | hmem
        · exact absurd hp hb
        · rw [ih hrest hmem]

end UpTo
