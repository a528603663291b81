import Mathlib.Tactic.Linarith
import Myna.Lib.Dict
import Myna.Lib.EditDistance
import Myna.Streaming.Words

/-!
# Myna — the keyword a word nearly spells (`myna.testbed.keyword_bias`)

`_edits` counts the edits between two words row by row, and `_nearest` looks for the one keyword
whose spelling is fewer edits away than any other's.

* **`isDistance_edits`** — the count is the edit distance;
* **`nearest_eq_some`** — the keyword found is strictly the nearest, and within reach.
-/

namespace Myna

namespace KeywordBias

open EditDistance

/-! ## `_edits` -/

section Edits

variable {α : Type}

/-- A row of the distances from `front` to the beginnings of `b`, up to the `k`th. -/
structure Distances (front b : List α) (k : ℕ) (row : List ℕ) : Prop where
  length : row.length = k + 1
  distance : ∀ j ≤ k, IsDistance front.reverse (b.take j).reverse (row.getD j 0)

theorem distances_nil (b : List α) : Distances [] b b.length (List.range (b.length + 1)) where
  length := List.length_range
  distance := by
    intro j hj
    have hrow : (List.range (b.length + 1)).getD j 0 = j := by
      rw [List.getD_eq_getElem?_getD, List.getElem?_range (Nat.lt_succ_of_le hj)]
      rfl
    have hlength : (b.take j).reverse.length = j := by
      rw [List.length_reverse, List.length_take, min_eq_left hj]
    have hdistance := (isDistance_nil (b.take j).reverse).symm
    rw [hlength] at hdistance
    rwa [hrow]

/-- Reading a cell of a row that one is appended to. -/
theorem getD_concat {row : List ℕ} {k : ℕ} (hlength : row.length = k + 1) (cell : ℕ) :
    (∀ j ≤ k, (row ++ [cell]).getD j 0 = row.getD j 0) ∧ (row ++ [cell]).getD (k + 1) 0 = cell := by
  constructor
  · intro j hj
    rw [List.getD_eq_getElem?_getD, List.getD_eq_getElem?_getD,
      List.getElem?_append_left (by omega)]
  · rw [List.getD_eq_getElem?_getD, List.getElem?_append_right (by omega), hlength]
    simp

variable [DecidableEq α]

/-- `current`, for the element `x` that comes `i`th. -/
def editRow (b : List α) (previous : List ℕ) (i : ℕ) (x : α) : List ℕ :=
  b.zipIdx.foldl (fun current y =>
    current ++ [min (min (previous.getD (y.2 + 1) 0 + 1) (current.getD y.2 0 + 1))
      (previous.getD y.2 0 + if x = y.1 then 0 else 1)]) [i]

def edits (a b : List α) : ℕ :=
  ((a.zipIdx.foldl (fun previous x => editRow b previous (x.2 + 1) x.1)
    (List.range (b.length + 1))).getLast?).getD 0

/-- The next row, cell by cell. -/
theorem distances_editRow {front b : List α} {previous : List ℕ}
    (h : Distances front b b.length previous) (x : α) :
    Distances (front ++ [x]) b b.length (editRow b previous (front.length + 1) x) := by
  suffices hpart : ∀ done : List α, done <+: b →
      Distances (front ++ [x]) b done.length (editRow done previous (front.length + 1) x) from
    hpart b (List.prefix_refl b)
  intro done
  induction done using List.reverseRecOn with
  | nil =>
    intro _
    refine ⟨rfl, fun j hj => ?_⟩
    obtain rfl : j = 0 := Nat.le_zero.mp hj
    have hdistance := isDistance_nil (front ++ [x]).reverse
    rw [List.length_reverse, List.length_append] at hdistance
    exact hdistance
  | append_singleton done y ih =>
    intro hprefix
    have hdone : done <+: b := (List.prefix_append done [y]).trans hprefix
    have hlt : done.length < b.length := by
      have hle := hprefix.length_le
      rw [List.length_append] at hle
      exact hle
    obtain ⟨hlength, hrow⟩ := ih hdone
    have hstep : editRow (done ++ [y]) previous (front.length + 1) x =
        editRow done previous (front.length + 1) x ++
          [min (min (previous.getD (done.length + 1) 0 + 1)
            ((editRow done previous (front.length + 1) x).getD done.length 0 + 1))
            (previous.getD done.length 0 + if x = y then 0 else 1)] := by
      unfold editRow
      rw [List.zipIdx_append, List.foldl_append, Nat.zero_add]
      rfl
    have hnext : (b.take (done.length + 1)).reverse = y :: (b.take done.length).reverse := by
      obtain ⟨rest, rfl⟩ := hprefix
      rw [List.append_assoc, List.take_append, List.take_append]
      simp
    rw [hstep, List.length_append]
    obtain ⟨hbefore, hcell⟩ := getD_concat hlength
      (min (min (previous.getD (done.length + 1) 0 + 1)
        ((editRow done previous (front.length + 1) x).getD done.length 0 + 1))
        (previous.getD done.length 0 + if x = y then 0 else 1))
    refine ⟨by rw [List.length_append, hlength]; rfl, fun j hj => ?_⟩
    rcases Nat.le_or_eq_of_le_succ hj with hj | hj
    · rw [hbefore j hj]
      exact hrow j hj
    · obtain rfl : j = done.length + 1 := hj
      rw [hcell, hnext, List.reverse_concat]
      have hup := h.distance (done.length + 1) hlt
      have hleft := hrow done.length (Nat.le_refl _)
      rw [hnext] at hup
      rw [List.reverse_concat] at hleft
      exact isDistance_cons x y (h.distance done.length hlt.le) hup hleft

/-- **The count is the edit distance.** -/
theorem isDistance_edits (a b : List α) : IsDistance a b (edits a b) := by
  suffices hrows : ∀ front : List α, Distances front b b.length
      (front.zipIdx.foldl (fun previous x => editRow b previous (x.2 + 1) x.1)
        (List.range (b.length + 1))) by
    obtain ⟨hlength, hrow⟩ := hrows a
    have hlast := hrow b.length (Nat.le_refl _)
    rw [List.take_length] at hlast
    have hcell : edits a b = (a.zipIdx.foldl (fun previous x => editRow b previous (x.2 + 1) x.1)
        (List.range (b.length + 1))).getD b.length 0 := by
      unfold edits
      rw [List.getLast?_eq_getElem?, hlength, List.getD_eq_getElem?_getD]
      rfl
    rw [hcell]
    exact hlast.reverse
  intro front
  induction front using List.reverseRecOn with
  | nil => exact distances_nil b
  | append_singleton front x ih =>
    rw [List.zipIdx_append, List.foldl_append, Nat.zero_add]
    exact distances_editRow ih x

end Edits

/-! ## `_nearest` -/

def CORRECT_BELOW_CONFIDENCE : ℚ := 8 / 10

def CORRECT_MIN_LETTERS : ℕ := 5

def CORRECT_TWO_EDITS_LETTERS : ℕ := 8

def reach (folded : Text) : ℕ := if CORRECT_TWO_EDITS_LETTERS ≤ folded.length then 2 else 1

/-- One turn of the loop over the spellings: the keywords nearest so far, and how near. -/
def nearestStep (folded : Text) (best : List Text × ℕ) (entry : Text × Text) : List Text × ℕ :=
  if reach folded < max entry.1.length folded.length - min entry.1.length folded.length then best
  else
    let found := edits folded entry.1
    if reach folded < found then best
    else if found < best.2 ∨ best.1 = [] then ([entry.2], found)
    else if found = best.2 then (best.1 ++ [entry.2], best.2)
    else best

/-- `_nearest`. -/
def nearest (spellings : Dict Text Text) (folded : Text) : Option Text :=
  if folded.length < CORRECT_MIN_LETTERS then none
  else
    match (spellings.foldl (nearestStep folded) ([], reach folded)).1 with
    | [keyword] => some keyword
    | _ => none

/-- What the loop has found among the spellings it has seen. -/
structure Best (folded : Text) (seen : Dict Text Text) (best : List Text × ℕ) : Prop where
  le_reach : best.2 ≤ reach folded
  least : ∀ entry ∈ seen, edits folded entry.1 ≤ reach folded → best.2 ≤ edits folded entry.1
  keywords : best.1 = (seen.filter fun entry => edits folded entry.1 = best.2).map Prod.snd
  empty : best.1 = [] → ∀ entry ∈ seen, reach folded < edits folded entry.1

/-- Spellings whose lengths are further apart than the reach are more edits apart. -/
theorem lt_edits_of_length {folded spelling : Text}
    (h : reach folded < max spelling.length folded.length - min spelling.length folded.length) :
    reach folded < edits folded spelling := by
  have hle := Edits.length_le (isDistance_edits folded spelling).1
  have hle' := Edits.length_le (isDistance_edits folded spelling).1.symm
  omega

theorem nearestStep_of_lt {folded : Text} {entry : Text × Text}
    (h : reach folded < edits folded entry.1) (best : List Text × ℕ) :
    nearestStep folded best entry = best := by
  unfold nearestStep
  simp only [h, if_true, ite_self]

theorem nearestStep_of_le {folded : Text} {entry : Text × Text}
    (h : edits folded entry.1 ≤ reach folded) (best : List Text × ℕ) :
    nearestStep folded best entry =
      if edits folded entry.1 < best.2 ∨ best.1 = [] then ([entry.2], edits folded entry.1)
      else if edits folded entry.1 = best.2 then (best.1 ++ [entry.2], best.2) else best := by
  have hlength : ¬reach folded < max entry.1.length folded.length -
      min entry.1.length folded.length := fun hlt => absurd (lt_edits_of_length hlt) (by omega)
  unfold nearestStep
  rw [if_neg hlength]
  dsimp only
  rw [if_neg (by omega)]

theorem Best.start (folded : Text) : Best folded [] ([], reach folded) where
  le_reach := le_rfl
  least := by simp
  keywords := rfl
  empty := by simp

theorem Best.step {folded : Text} {seen : Dict Text Text} {best : List Text × ℕ}
    (h : Best folded seen best) (entry : Text × Text) :
    Best folded (seen ++ [entry]) (nearestStep folded best entry) := by
  rcases Nat.lt_or_ge (reach folded) (edits folded entry.1) with hfar | hnear
  · rw [nearestStep_of_lt hfar]
    have hne : edits folded entry.1 ≠ best.2 := by
      have hle := h.le_reach
      omega
    refine ⟨h.le_reach, ?_, ?_, ?_⟩
    · intro other hother hle
      rcases List.mem_append.mp hother with hother | hother
      · exact h.least other hother hle
      · rw [List.mem_singleton.mp hother] at hle
        omega
    · rw [List.filter_append, List.filter_singleton]
      simp only [hne, decide_false, cond_false, List.append_nil]
      exact h.keywords
    · intro hnil other hother
      rcases List.mem_append.mp hother with hother | hother
      · exact h.empty hnil other hother
      · rwa [List.mem_singleton.mp hother]
  · rw [nearestStep_of_le hnear]
    split_ifs with hbetter hequal
    · -- nothing seen is as near
      have hfurther : ∀ other ∈ seen, edits folded entry.1 < edits folded other.1 ∨
          reach folded < edits folded other.1 := by
        intro other hother
        rcases hbetter with hlt | hnil
        · rcases Nat.lt_or_ge (reach folded) (edits folded other.1) with hfar | hle
          · exact .inr hfar
          · exact .inl (hlt.trans_le (h.least other hother hle))
        · exact .inr (h.empty hnil other hother)
      refine ⟨hnear, ?_, ?_, fun hnil => absurd hnil (List.cons_ne_nil _ _)⟩
      · intro other hother hle
        rcases List.mem_append.mp hother with hother | hother
        · rcases hfurther other hother with hlt | hfar
          · exact hlt.le
          · omega
        · rw [List.mem_singleton.mp hother]
      · have hnone :
            seen.filter (fun other => edits folded other.1 = edits folded entry.1) = [] := by
          rw [List.filter_eq_nil_iff]
          intro other hother heq
          have heq := of_decide_eq_true heq
          rcases hfurther other hother with hlt | hfar <;> omega
        rw [List.filter_append, hnone, List.filter_singleton]
        simp
    · refine ⟨h.le_reach, ?_, ?_, fun hnil => ?_⟩
      · intro other hother hle
        rcases List.mem_append.mp hother with hother | hother
        · exact h.least other hother hle
        · rw [List.mem_singleton.mp hother, hequal]
      · rw [List.filter_append, List.map_append, ← h.keywords, List.filter_singleton]
        simp [hequal]
      · exact absurd (List.append_eq_nil_iff.mp hnil).2 (List.cons_ne_nil _ _)
    · rw [not_or] at hbetter
      refine ⟨h.le_reach, ?_, ?_, fun hnil => absurd hnil hbetter.2⟩
      · intro other hother hle
        rcases List.mem_append.mp hother with hother | hother
        · exact h.least other hother hle
        · rw [List.mem_singleton.mp hother]
          omega
      · rw [List.filter_append, List.filter_singleton]
        simp only [hequal, decide_false, cond_false, List.append_nil]
        exact h.keywords

theorem best_foldl (folded : Text) (spellings : Dict Text Text) :
    Best folded spellings (spellings.foldl (nearestStep folded) ([], reach folded)) := by
  induction spellings using List.reverseRecOn with
  | nil => exact .start folded
  | append_singleton seen entry ih =>
    rw [List.foldl_append]
    exact ih.step entry

/-- The spelling of a keyword is strictly the nearest to a word. -/
structure StrictlyNearest (spellings : Dict Text Text) (folded spelling keyword : Text) (d : ℕ) :
    Prop where
  mem : (spelling, keyword) ∈ spellings
  distance : IsDistance folded spelling d
  further : ∀ entry ∈ spellings, entry.1 ≠ spelling → ∀ d', IsDistance folded entry.1 d' → d < d'

/-- **The keyword found is strictly the nearest, and within reach.** -/
theorem nearest_eq_some {spellings : Dict Text Text} (hkeys : spellings.keys.Nodup)
    {folded keyword : Text} :
    nearest spellings folded = some keyword ↔ CORRECT_MIN_LETTERS ≤ folded.length ∧
      ∃ spelling d, d ≤ reach folded ∧ StrictlyNearest spellings folded spelling keyword d := by
  have hbest := best_foldl folded spellings
  unfold nearest
  generalize spellings.foldl (nearestStep folded) ([], reach folded) = best at hbest
  obtain ⟨hle, hleast, hkeywords, hempty⟩ := hbest
  by_cases hshort : folded.length < CORRECT_MIN_LETTERS
  · rw [if_pos hshort]
    constructor
    · intro h
      cases h
    · intro h
      omega
  rw [if_neg hshort]
  constructor
  · intro h
    have hone : best.1 = [keyword] := by
      split at h
      · rename_i found hfound
        rw [hfound, Option.some.inj h]
      · cases h
    rw [hone] at hkeywords
    obtain ⟨entry, hentry, rfl⟩ := List.map_eq_singleton_iff.mp hkeywords.symm
    have hmem : entry ∈ spellings.filter fun entry => edits folded entry.1 = best.2 :=
      hentry ▸ List.mem_singleton_self entry
    obtain ⟨hin, heq⟩ := List.mem_filter.mp hmem
    have heq := of_decide_eq_true heq
    refine ⟨Nat.le_of_not_lt hshort, entry.1, best.2, hle, hin, heq ▸ isDistance_edits _ _, ?_⟩
    intro other hother hne d' hd'
    obtain rfl : d' = edits folded other.1 := hd'.unique (isDistance_edits _ _)
    by_contra hnot
    have hnear := hleast other hother (by omega)
    have hsame : other ∈ spellings.filter fun entry => edits folded entry.1 = best.2 :=
      List.mem_filter.mpr ⟨hother, decide_eq_true (by omega)⟩
    rw [hentry] at hsame
    exact hne (congrArg Prod.fst (List.mem_singleton.mp hsame))
  · rintro ⟨-, spelling, d, hreach, hmem, hdistance, hfurther⟩
    obtain rfl : d = edits folded spelling := hdistance.unique (isDistance_edits _ _)
    have hall : ∀ entry ∈ spellings.filter (fun entry => edits folded entry.1 = best.2),
        entry = (spelling, keyword) := by
      intro entry hentry
      obtain ⟨hin, heq⟩ := List.mem_filter.mp hentry
      have heq := of_decide_eq_true heq
      have hnear : best.2 ≤ edits folded spelling := hleast _ hmem hreach
      have hkey : entry.1 = spelling := by
        by_contra hne
        have hlt := hfurther entry hin hne _ (isDistance_edits _ _)
        omega
      have hget := Dict.get?_of_mem hkeys hin
      rw [hkey, Dict.get?_of_mem hkeys hmem] at hget
      exact Prod.ext hkey (Option.some.inj hget).symm
    have hne : best.1 ≠ [] := by
      intro hnil
      have hfar : reach folded < edits folded spelling := hempty hnil _ hmem
      omega
    have hnodup : (spellings.filter fun entry => edits folded entry.1 = best.2).Nodup :=
      (List.Nodup.of_map _ hkeys).filter _
    have hone : best.1 = [keyword] := by
      rw [hkeywords] at hne ⊢
      cases hsel : spellings.filter (fun entry => edits folded entry.1 = best.2) with
      | nil =>
        rw [hsel] at hne
        exact absurd rfl hne
      | cons first rest =>
        rw [hsel] at hall hnodup
        have hrest : rest = [] := by
          rw [List.eq_nil_iff_forall_not_mem]
          intro entry hentry
          have hsame := (hall entry (List.mem_cons_of_mem _ hentry)).trans
            (hall first List.mem_cons_self).symm
          exact (List.nodup_cons.mp hnodup).1 (hsame ▸ hentry)
        rw [hrest, hall first List.mem_cons_self]
        rfl
    rw [hone]

end KeywordBias

end Myna
