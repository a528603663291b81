import Myna.Lib.Strip

/-!
# Replacing a pattern where it stands alone

`Replaced pat sub alone` relates a list to itself with one element in place of each occurrence of a
pattern that stands alone, by what is before and after it. `splitInclusive` cuts a list after each
separator.

* **`Replaced.keep_append`** — a stretch in which nothing stands alone is kept;
* **`Replaced.not_alone`** — no occurrence stands alone in the result;
* **`splitInclusive_append`** — cuts before and after a separator are independent.
-/

namespace List

variable {α : Type*}

/-! ## First occurrences -/

section First

variable [DecidableEq α]

theorem splitOnce_first {pat : List α} : ∀ {l before after : List α},
    splitOnce pat l = some (before, after) → ∀ pre suf, before = pre ++ suf → suf ≠ [] →
      ¬pat <+: suf ++ (pat ++ after)
  | [], before, after, h, pre, suf, hsplit, hne => by
    rw [splitOnce] at h
    split at h
    case isTrue =>
      obtain ⟨rfl, rfl⟩ := Prod.mk.inj (Option.some.inj h)
      exact absurd (append_eq_nil_iff.mp hsplit.symm).2 hne
    case isFalse => cases h
  | a :: l, before, after, h, pre, suf, hsplit, hne => by
    have hwhole := splitOnce_eq_some h
    rw [splitOnce] at h
    split at h
    case isTrue =>
      obtain ⟨rfl, rfl⟩ := Prod.mk.inj (Option.some.inj h)
      exact absurd (append_eq_nil_iff.mp hsplit.symm).2 hne
    case isFalse hpre =>
      obtain ⟨⟨x, y⟩, hrest, heq⟩ := Option.map_eq_some_iff.mp h
      obtain ⟨rfl, rfl⟩ := Prod.mk.inj heq
      cases pre with
      | nil =>
        rw [nil_append] at hsplit
        rwa [← hsplit, ← append_assoc, ← hwhole, ← isPrefixOf_iff_prefix]
      | cons b pre => exact splitOnce_first hrest pre suf (cons.inj hsplit).2 hne

theorem splitOnce_none {pat : List α} : ∀ {l : List α}, splitOnce pat l = none →
    ∀ pre suf, l = pre ++ suf → ¬pat <+: suf
  | [], h, pre, suf, hsplit => by
    rw [splitOnce] at h
    split at h
    case isTrue => cases h
    case isFalse hne =>
      rw [(append_eq_nil_iff.mp hsplit.symm).2, prefix_nil]
      exact hne
  | a :: l, h, pre, suf, hsplit => by
    rw [splitOnce] at h
    split at h
    case isTrue => cases h
    case isFalse hpre =>
      cases pre with
      | nil =>
        rw [nil_append] at hsplit
        rwa [← hsplit, ← isPrefixOf_iff_prefix]
      | cons b pre => exact splitOnce_none (Option.map_eq_none_iff.mp h) pre suf (cons.inj hsplit).2

end First

/-! ## Replacing -/

section Replace

variable (pat : List α) (sub : α) (alone : Option α → Option α → Prop)

/-- The pattern stands alone at the front of a list, after `prev`. -/
def Stands (prev : Option α) (l : List α) : Prop :=
  ∃ rest, l = pat ++ rest ∧ alone prev rest.head?

/-- A list after `prev`, and the list with `sub` for each occurrence that stands alone. -/
inductive Replaced : Option α → List α → List α → Prop
  | nil (prev : Option α) : Replaced prev [] []
  | sub {prev : Option α} {rest out : List α} (halone : alone prev rest.head?)
      (tail : Replaced pat.getLast? rest out) : Replaced prev (pat ++ rest) (sub :: out)
  | keep {prev : Option α} {a : α} {rest out : List α} (h : ¬Stands pat alone prev (a :: rest))
      (tail : Replaced (some a) rest out) : Replaced prev (a :: rest) (a :: out)

/-- Where the pattern overlaps itself, the second occurrence does not stand alone. -/
def ApartFrom : Prop :=
  ∀ pre suf, pat = pre ++ suf → pre ≠ [] → suf ≠ [] → suf <+: pat → ∀ next,
    ¬alone pre.getLast? next

variable {pat sub alone} {prev : Option α} {l rest out : List α}

theorem getLast?_cons_or (a : α) (l : List α) (prev : Option α) :
    (a :: l).getLast?.or prev = l.getLast?.or (some a) := by
  rw [getLast?_cons]
  cases l.getLast? <;> rfl

theorem Replaced.keep_append {kept : List α}
    (h : ∀ pre suf, kept = pre ++ suf → suf ≠ [] →
      ¬Stands pat alone (pre.getLast?.or prev) (suf ++ rest))
    (tail : Replaced pat sub alone (kept.getLast?.or prev) rest out) :
    Replaced pat sub alone prev (kept ++ rest) (kept ++ out) := by
  induction kept generalizing prev with
  | nil => exact tail
  | cons a kept ih =>
    refine .keep (h [] (a :: kept) rfl (cons_ne_nil a kept)) (ih ?_ ?_)
    · intro pre suf hsplit hne
      rw [← getLast?_cons_or]
      exact h (a :: pre) suf (congrArg (a :: ·) hsplit) hne
    · rw [← getLast?_cons_or]
      exact tail

/-- An occurrence that does not stand alone is kept whole. -/
theorem Replaced.keep_pat (hapart : ApartFrom pat alone) (h : ¬alone prev rest.head?)
    (hne : pat ≠ []) (tail : Replaced pat sub alone pat.getLast? rest out) :
    Replaced pat sub alone prev (pat ++ rest) (pat ++ out) := by
  refine .keep_append ?_ ?_
  · rintro pre suf hsplit hsuf ⟨rest', hrest, halone⟩
    cases pre with
    | nil =>
      rw [nil_append] at hsplit
      rw [← hsplit] at hrest
      rw [← append_cancel_left hrest] at halone
      exact h halone
    | cons a pre =>
      have hprefix : suf <+: pat := by
        refine prefix_of_prefix_length_le (prefix_append suf rest)
          (hrest ▸ prefix_append pat rest') ?_
        have hlength := congrArg length hsplit
        rw [length_append] at hlength
        omega
      refine hapart (a :: pre) suf hsplit (cons_ne_nil a pre) hsuf hprefix rest'.head? ?_
      rw [getLast?_cons] at halone ⊢
      exact halone
  · rw [getLast?_eq_some_getLast hne] at tail ⊢
    exact tail

/-- What is kept in the result was there before; after it comes what came before, or a replaced
occurrence. -/
theorem Replaced.prefix {w post : List α} (hne : pat ≠ [])
    (h : Replaced pat sub alone prev l (w ++ post)) (hsub : sub ∉ w) :
    ∃ l', l = w ++ l' ∧ (l'.head? = post.head? ∨ post.head? = some sub ∧ l'.head? = pat.head?) := by
  induction w generalizing prev l with
  | nil =>
    refine ⟨l, rfl, ?_⟩
    rw [nil_append] at h
    cases h with
    | nil => exact .inl rfl
    | @sub _ rest _ _ _ =>
      refine .inr ⟨rfl, ?_⟩
      cases pat with
      | nil => exact absurd rfl hne
      | cons a pat => rfl
    | keep _ _ => exact .inl rfl
  | cons a w ih =>
    obtain ⟨ha, hw⟩ := not_or.mp (mt mem_cons.mpr hsub)
    rw [cons_append] at h
    cases h with
    | sub _ _ => exact absurd rfl ha
    | keep _ tail =>
      obtain ⟨l', rfl, hnext⟩ := ih tail hw
      exact ⟨l', rfl, hnext⟩

/-- Every occurrence in the result that does not follow a replaced one has something around it. -/
theorem Replaced.not_alone (hne : pat ≠ []) (hsub : sub ∉ pat)
    (hnext : ∀ prev, alone prev (some sub) → alone prev pat.head?)
    (h : Replaced pat sub alone prev l out) {pre post : List α} (hout : out = pre ++ (pat ++ post))
    (hpre : pre.getLast? ≠ some sub) : ¬alone (pre.getLast?.or prev) post.head? := by
  induction h generalizing pre with
  | nil =>
    have hnil := (append_eq_nil_iff.mp hout.symm).2
    exact absurd (append_eq_nil_iff.mp hnil).1 hne
  | sub _ _ ih =>
    cases pre with
    | nil =>
      obtain ⟨a, pat', hpat⟩ := exists_cons_of_ne_nil hne
      rw [hpat, nil_append, cons_append] at hout
      rw [hpat, (cons.inj hout).1] at hsub
      exact absurd mem_cons_self hsub
    | cons b pre =>
      obtain ⟨rfl, htail⟩ := cons.inj hout
      cases pre with
      | nil => exact absurd rfl hpre
      | cons c pre =>
        have hlast := ih htail (by rwa [getLast?_cons_cons] at hpre)
        rw [getLast?_cons_cons]
        rw [getLast?_cons] at hlast ⊢
        exact hlast
  | @keep prev a rest out hstands tail ih =>
    cases pre with
    | nil =>
      obtain ⟨b, pat', hpat⟩ := exists_cons_of_ne_nil hne
      rw [nil_append, hpat, cons_append] at hout
      obtain ⟨rfl, rfl⟩ := cons.inj hout
      have hsub' : sub ∉ pat' := fun hmem => hsub (hpat ▸ mem_cons_of_mem _ hmem)
      obtain ⟨rest', rfl, hrest⟩ := tail.prefix hne hsub'
      intro halone
      refine hstands ⟨rest', by rw [hpat]; rfl, ?_⟩
      cases hrest with
      | inl heq => exact heq ▸ halone
      | inr heq =>
        rw [heq.1] at halone
        rw [heq.2]
        exact hnext prev halone
    | cons b pre =>
      obtain ⟨rfl, htail⟩ := cons.inj hout
      rw [getLast?_cons_or]
      refine ih htail fun heq => hpre ?_
      rw [getLast?_cons, heq]
      rfl

end Replace

/-! ## Cutting after each separator -/

section Inclusive

variable (p : α → Bool)

/-- The tokens of a list, each with the separator that ends it. -/
def splitInclusive : List α → List (List α)
  | [] => []
  | a :: l =>
    if p a then [a] :: splitInclusive l
    else
      match splitInclusive l with
      | [] => [[a]]
      | token :: tokens => (a :: token) :: tokens

variable {p}

theorem splitInclusive_append {front : List α} (h : ∀ a ∈ front.getLast?, p a = true)
    (rest : List α) :
    splitInclusive p (front ++ rest) = splitInclusive p front ++ splitInclusive p rest := by
  induction front with
  | nil => rfl
  | cons a front ih =>
    rw [cons_append, splitInclusive, splitInclusive]
    cases front with
    | nil =>
      have ha := h a rfl
      simp [ha, splitInclusive]
    | cons b front =>
      rw [getLast?_cons_cons] at h
      rw [ih h]
      split_ifs
      · rfl
      · cases hsplit : splitInclusive p (b :: front) with
        | nil =>
          rw [splitInclusive] at hsplit
          split_ifs at hsplit
          split at hsplit <;> cases hsplit
        | cons token tokens => rfl

/-- A word up to the next separator is a token. -/
theorem splitInclusive_word {word : List α} (hword : ∀ a ∈ word, p a = false) (hne : word ≠ [])
    {post : List α} (hpost : ∀ a ∈ post.head?, p a = true) :
    splitInclusive p (word ++ post) = (word ++ post.take 1) :: splitInclusive p (post.drop 1) := by
  induction word with
  | nil => exact absurd rfl hne
  | cons a word ih =>
    have ha := hword a mem_cons_self
    rw [cons_append, splitInclusive, if_neg (by simp [ha])]
    cases word with
    | nil =>
      cases post with
      | nil => rfl
      | cons b post =>
        rw [nil_append, splitInclusive, if_pos (hpost b rfl)]
        rfl
    | cons b word =>
      rw [ih (fun c hc => hword c (mem_cons_of_mem a hc)) (cons_ne_nil b word)]
      rfl

end Inclusive

end List
