import Mathlib.Data.List.DropRight
import Mathlib.Data.List.Infix

/-!
# Lists without what stands at their ends

`l.strip p` drops the elements satisfying `p` from both ends of `l`, and `l.Clean p` says that there
are none to drop. `stripSuffix` takes a given end off, `splitOnce` cuts at the first occurrence of a
pattern.

* **`clean_strip`** — what is left has clean ends;
* **`strip_eq_self_iff`** — a list with clean ends is left as it is;
* **`stripSuffix_eq_some`**, **`splitOnce_eq_some`** — where the parts come from;
* **`splitOnce_singleton`** — the first part has none of the element that is cut at.
-/

namespace List

variable {α : Type*}

/-- `l` without the elements at its ends that satisfy `p`. -/
def strip (p : α → Bool) (l : List α) : List α := (l.dropWhile p).rdropWhile p

/-- Neither the first nor the last element of `l` satisfies `p`. -/
def Clean (p : α → Bool) (l : List α) : Prop :=
  (∀ a ∈ l.head?, p a = false) ∧ ∀ a ∈ l.getLast?, p a = false

instance (p : α → Bool) (l : List α) : Decidable (Clean p l) :=
  inferInstanceAs (Decidable (_ ∧ _))

variable {p q : α → Bool} {l : List α}

@[simp] theorem Clean.nil : Clean p [] := by simp [Clean]

/-- Clean ends stay clean for a stronger predicate. -/
theorem Clean.mono (himp : ∀ a, q a = true → p a = true) (h : Clean p l) : Clean q l := by
  have hneg : ∀ a, p a = false → q a = false := by
    intro a ha
    rw [← Bool.not_eq_true] at ha ⊢
    exact mt (himp a) ha
  exact ⟨fun a ha => hneg a (h.1 a ha), fun a ha => hneg a (h.2 a ha)⟩

theorem dropWhile_eq_self_of_head (h : ∀ a ∈ l.head?, p a = false) : l.dropWhile p = l := by
  cases l with
  | nil => rfl
  | cons a l => exact dropWhile_cons_of_neg (by simpa using h a rfl)

theorem rdropWhile_eq_self_of_getLast (h : ∀ a ∈ l.getLast?, p a = false) :
    l.rdropWhile p = l := by
  rw [rdropWhile_eq_self_iff]
  intro hne
  have := h _ (getLast?_eq_some_getLast hne)
  simp [this]

theorem strip_of_clean (h : Clean p l) : strip p l = l := by
  unfold strip
  rw [dropWhile_eq_self_of_head h.1, rdropWhile_eq_self_of_getLast h.2]

theorem clean_strip (p : α → Bool) (l : List α) : Clean p (strip p l) := by
  constructor
  · -- what the right end loses leaves the first element where it was
    intro a ha
    obtain ⟨rest, hrest⟩ := rdropWhile_prefix p (l := l.dropWhile p)
    have hhead : a ∈ (l.dropWhile p).head? := by
      rw [← hrest]
      show (strip p l ++ rest).head? = some a
      rw [head?_append, ha]
      rfl
    have hnot := head?_dropWhile_not p l
    rw [hhead] at hnot
    simpa using hnot
  · intro a ha
    have hne : strip p l ≠ [] := by
      intro hnil
      rw [hnil] at ha
      cases ha
    have hlast := rdropWhile_last_not p (l.dropWhile p) hne
    rw [getLast?_eq_some_getLast hne] at ha
    rw [← Option.some.inj ha]
    exact Bool.eq_false_iff.mpr hlast

/-- **A list is left as it is exactly when its ends are clean.** -/
theorem strip_eq_self_iff : strip p l = l ↔ Clean p l := by
  constructor
  · intro h
    rw [← h]
    exact clean_strip p l
  · exact strip_of_clean

theorem rdropWhile_append_of_all (l : List α) {s : List α} (hs : ∀ a ∈ s, p a = true) :
    (l ++ s).rdropWhile p = l.rdropWhile p := by
  induction s using List.reverseRecOn with
  | nil => rw [append_nil]
  | append_singleton s a ih =>
    rw [← append_assoc, rdropWhile_concat_pos _ _ _ (hs a (by simp))]
    exact ih fun b hb => hs b (mem_append_left _ hb)

/-- What is stripped from an end may go first. -/
theorem strip_append_of_all (l : List α) {s : List α} (hs : ∀ a ∈ s, p a = true) :
    strip p (l ++ s) = strip p l := by
  unfold strip
  by_cases hl : ∀ a ∈ l, p a = true
  · have hall : ∀ a ∈ l ++ s, p a = true := by
      intro a ha
      cases mem_append.mp ha with
      | inl h => exact hl a h
      | inr h => exact hs a h
    rw [dropWhile_eq_nil_iff.mpr hall, dropWhile_eq_nil_iff.mpr hl]
  · have hne : l.dropWhile p ≠ [] := fun hnil => hl (dropWhile_eq_nil_iff.mp hnil)
    rw [dropWhile_append, if_neg (by simpa using hne)]
    exact rdropWhile_append_of_all _ hs

theorem strip_rdropWhile (l : List α) : strip p (l.rdropWhile p) = strip p l := by
  have hall : ∀ a ∈ l.rtakeWhile p, p a = true := fun a ha => mem_rtakeWhile_imp ha
  have happend : l.rdropWhile p ++ l.rtakeWhile p = l := rdropWhile_append_rtakeWhile
  rw [← strip_append_of_all (l.rdropWhile p) hall, happend]

/-! ## A given end, and a first occurrence -/

section Split

variable [DecidableEq α]

/-- `l` without the end `s`, if it has it. -/
def stripSuffix (l s : List α) : Option (List α) :=
  if l.drop (l.length - s.length) = s then some (l.take (l.length - s.length)) else none

theorem stripSuffix_eq_some {l s rest : List α} : l.stripSuffix s = some rest ↔ l = rest ++ s := by
  unfold stripSuffix
  constructor
  · intro h
    split at h
    case isTrue hend =>
      calc l = l.take (l.length - s.length) ++ l.drop (l.length - s.length) :=
            (take_append_drop _ _).symm
        _ = rest ++ s := by rw [hend, Option.some.inj h]
    case isFalse => cases h
  · rintro rfl
    simp

/-- The parts before and after the first occurrence of `pat`. -/
def splitOnce (pat : List α) : List α → Option (List α × List α)
  | [] => if pat = [] then some ([], []) else none
  | a :: l =>
    if pat.isPrefixOf (a :: l) then some ([], (a :: l).drop pat.length)
    else (splitOnce pat l).map fun parts => (a :: parts.1, parts.2)

theorem splitOnce_eq_some {pat : List α} : ∀ {l before after : List α},
    splitOnce pat l = some (before, after) → l = before ++ pat ++ after
  | [], before, after, h => by
    rw [splitOnce] at h
    split at h
    case isTrue hnil =>
      obtain ⟨rfl, rfl⟩ := Prod.mk.inj (Option.some.inj h)
      rw [hnil]
      rfl
    case isFalse => cases h
  | a :: l, before, after, h => by
    rw [splitOnce] at h
    split at h
    case isTrue hpre =>
      obtain ⟨rfl, rfl⟩ := Prod.mk.inj (Option.some.inj h)
      rw [nil_append]
      have hpre := isPrefixOf_iff_prefix.mp hpre
      exact prefix_append_drop hpre
    case isFalse =>
      obtain ⟨⟨x, y⟩, hsplit, heq⟩ := Option.map_eq_some_iff.mp h
      obtain ⟨rfl, rfl⟩ := Prod.mk.inj heq
      rw [splitOnce_eq_some hsplit]
      rfl

/-- Cutting at one element cuts at its first occurrence. -/
theorem splitOnce_singleton {a : α} : ∀ {l before after : List α},
    splitOnce [a] l = some (before, after) ↔ l = before ++ a :: after ∧ a ∉ before
  | [], before, after => by simp [splitOnce]
  | b :: l, before, after => by
    rw [splitOnce]
    by_cases hb : a = b
    · subst hb
      rw [if_pos (by simp)]
      cases before with
      | nil => simp
      | cons c before =>
        constructor
        · intro h
          cases h
        · rintro ⟨hsplit, hnot⟩
          rw [(cons.inj hsplit).1] at hnot
          exact absurd mem_cons_self hnot
    · rw [if_neg (by simpa using hb), Option.map_eq_some_iff]
      cases before with
      | nil => simp [Ne.symm hb]
      | cons c before =>
        simp only [Prod.exists, Prod.mk.injEq, cons.injEq, splitOnce_singleton, cons_append,
          mem_cons, not_or]
        constructor
        · rintro ⟨x, y, ⟨rfl, hx⟩, ⟨rfl, rfl⟩, rfl⟩
          exact ⟨⟨rfl, rfl⟩, hb, hx⟩
        · rintro ⟨⟨rfl, rfl⟩, -, hx⟩
          exact ⟨before, after, ⟨rfl, hx⟩, ⟨rfl, rfl⟩, rfl⟩

/-- What does not occur is not cut at. -/
theorem splitOnce_eq_none {a : α} {l : List α} : splitOnce [a] l = none ↔ a ∉ l := by
  constructor
  · intro hnone hmem
    obtain ⟨before, after, hsplit, hnot⟩ := eq_append_cons_of_mem hmem
    rw [splitOnce_singleton.mpr ⟨hsplit, hnot⟩] at hnone
    cases hnone
  · intro hnot
    cases h : splitOnce [a] l with
    | none => rfl
    | some parts =>
      obtain ⟨before, after⟩ := parts
      refine absurd ?_ hnot
      rw [(splitOnce_singleton.mp h).1]
      simp

end Split

end List
