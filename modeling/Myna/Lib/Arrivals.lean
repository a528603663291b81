import Mathlib.Data.List.Infix

/-!
# A list that arrives in pieces

`Splits width reads l` says that `reads` are `l` in pieces of at most `width` elements. `await`
appends them to a buffer until it holds what is needed, is full, or nothing more arrives.

* **`await_of_le`** — what is needed within the limit always arrives, however it is split;
* **`await_short`**, **`await_beyond`** — what never arrives, or is too far beyond the limit;
* **`await_ones`**, **`await_jump`** — what is needed just beyond the limit is missed by single
  elements, and arrives in one long piece;
* **`position_append`**, **`position_eq_none`** — the first occurrence of a pattern in what arrived.
-/

namespace List

variable {α : Type*}

/-! ## First occurrences -/

section Position

variable [DecidableEq α]

/-- Where the pattern first occurs. -/
def position (pat : List α) : List α → Option ℕ
  | [] => if pat = [] then some 0 else none
  | a :: l => if pat.isPrefixOf (a :: l) then some 0 else (position pat l).map (· + 1)

variable {pat l more : List α} {i : ℕ}

theorem position_le (h : position pat l = some i) : i + pat.length ≤ l.length := by
  induction l generalizing i with
  | nil =>
    rw [position] at h
    split at h
    · next hnil =>
      cases h
      simp [hnil]
    · cases h
  | cons a l ih =>
    rw [position] at h
    split at h
    · next hpre =>
      have hle := (List.isPrefixOf_iff_prefix.mp hpre).length_le
      cases h
      omega
    · obtain ⟨j, hj, rfl⟩ := Option.map_eq_some_iff.mp h
      have hle := ih hj
      rw [length_cons]
      omega

/-- An occurrence stays the first one. -/
theorem position_append (h : position pat l = some i) : position pat (l ++ more) = some i := by
  induction l generalizing i with
  | nil =>
    rw [position] at h
    split at h
    · next hnil =>
      cases h
      subst hnil
      cases more <;> rfl
    · cases h
  | cons a l ih =>
    have hle := position_le h
    rw [position] at h
    rw [cons_append, position]
    split at h
    · next hpre =>
      have hlong : pat <+: a :: (l ++ more) :=
        (List.isPrefixOf_iff_prefix.mp hpre).trans (prefix_append (a :: l) more)
      rw [if_pos (List.isPrefixOf_iff_prefix.mpr hlong)]
      exact h
    · next hnot =>
      obtain ⟨j, hj, rfl⟩ := Option.map_eq_some_iff.mp h
      have hnot' : ¬pat.isPrefixOf (a :: (l ++ more)) := by
        rw [List.isPrefixOf_iff_prefix] at hnot ⊢
        intro hpre
        -- the pattern is no longer than what was there
        refine hnot (prefix_of_prefix_length_le hpre (prefix_append (a :: l) more) ?_)
        omega
      rw [if_neg hnot', ih hj]
      rfl

/-- It is not found before it is all there. -/
theorem position_eq_none (more : List α)
    (h : ∀ j, position pat (l ++ more) = some j → l.length < j + pat.length) :
    position pat l = none := by
  cases hp : position pat l with
  | none => rfl
  | some j =>
    have hle := position_le hp
    have hlt := h j (position_append hp)
    omega

theorem position_of_append (h : position pat (l ++ more) = some i)
    (hle : i + pat.length ≤ l.length) : position pat l = some i := by
  induction l generalizing i with
  | nil =>
    have hpat : pat = [] := length_eq_zero_iff.mp (by rw [length_nil] at hle; omega)
    rw [length_nil] at hle
    have hzero : i = 0 := by omega
    rw [position, if_pos hpat, hzero]
  | cons a l ih =>
    rw [cons_append, position] at h
    rw [position]
    split at h
    · next hpre =>
      cases h
      have hshort : pat <+: a :: l := by
        refine prefix_of_prefix_length_le (List.isPrefixOf_iff_prefix.mp hpre)
          (prefix_append (a :: l) more) ?_
        omega
      rw [if_pos (List.isPrefixOf_iff_prefix.mpr hshort)]
    · next hnot =>
      obtain ⟨j, hj, rfl⟩ := Option.map_eq_some_iff.mp h
      have hnot' : ¬pat.isPrefixOf (a :: l) := by
        rw [List.isPrefixOf_iff_prefix] at hnot ⊢
        exact fun hpre => hnot (hpre.trans (prefix_append (a :: l) more))
      rw [length_cons] at hle
      rw [if_neg hnot', ih hj (by omega)]
      rfl

/-- A stretch without the pattern's first element is passed over. -/
theorem position_append_of_notMem {a : α} {front : List α} (h : a ∉ front) :
    position (a :: pat) (front ++ l) = (position (a :: pat) l).map (· + front.length) := by
  induction front with
  | nil => cases h' : position (a :: pat) l <;> simp [h']
  | cons b front ih =>
    rw [mem_cons, not_or] at h
    have hnot : ¬(a :: pat).isPrefixOf (b :: (front ++ l)) = true := by simp [h.1]
    rw [cons_append, position, if_neg hnot, ih h.2, Option.map_map]
    rfl

end Position

/-! ## Splits -/

/-- `reads` are `l` in pieces of at most `width` elements, none of them empty. -/
structure Splits (width : ℕ) (reads : List (List α)) (l : List α) : Prop where
  flatten : reads.flatten = l
  pieces : ∀ piece ∈ reads, piece ≠ [] ∧ piece.length ≤ width

/-- The split into single elements. -/
def ones (l : List α) : List (List α) := l.map fun a => [a]

section Splits

variable {width : ℕ} {reads more : List (List α)} {l l' : List α}

theorem Splits.append (h : Splits width reads l) (h' : Splits width more l') :
    Splits width (reads ++ more) (l ++ l') where
  flatten := by rw [flatten_append, h.flatten, h'.flatten]
  pieces := by
    intro piece hpiece
    rcases mem_append.mp hpiece with hpiece | hpiece
    · exact h.pieces piece hpiece
    · exact h'.pieces piece hpiece

theorem splits_nil : Splits width [] ([] : List α) := ⟨rfl, by simp⟩

theorem splits_singleton (hne : l ≠ []) (h : l.length ≤ width) : Splits width [l] l :=
  ⟨by simp, by simpa using ⟨hne, h⟩⟩

theorem splits_ones (h : 1 ≤ width) (l : List α) : Splits width (ones l) l where
  flatten := by
    induction l with
    | nil => rfl
    | cons a l ih =>
      show [a] ++ (ones l).flatten = a :: l
      rw [ih]
      rfl
  pieces := by
    intro piece hpiece
    obtain ⟨a, -, rfl⟩ := mem_map.mp hpiece
    exact ⟨by simp, h⟩

end Splits

/-! ## Waiting for what is needed -/

inductive Awaited (α : Type*)
  /-- It is in the buffer, and these pieces have not been read. -/
  | got (buffer : List α) (reads : List (List α))
  | full
  | closed (buffer : List α)

/-- Append pieces to the buffer until it holds `need` elements, or `limit` of them without. -/
def await (limit need : ℕ) (buffer : List α) : List (List α) → Awaited α
  | [] =>
    if need ≤ buffer.length then .got buffer []
    else if limit ≤ buffer.length then .full
    else .closed buffer
  | piece :: reads =>
    if need ≤ buffer.length then .got buffer (piece :: reads)
    else if limit ≤ buffer.length then .full
    else await limit need (buffer ++ piece) reads

section Await

variable {width limit need : ℕ} {buffer l : List α} {reads more : List (List α)}

theorem await_got (h : need ≤ buffer.length) :
    await limit need buffer reads = .got buffer reads := by
  cases reads <;> simp [await, h]

theorem await_full (h : buffer.length < need) (hfull : limit ≤ buffer.length) :
    await limit need buffer reads = .full := by
  cases reads <;> simp [await, hfull, Nat.not_le.mpr h]

theorem await_read {piece : List α} (h : buffer.length < need) (hroom : buffer.length < limit) :
    await limit need buffer (piece :: reads) = await limit need (buffer ++ piece) reads := by
  simp [await, Nat.not_le.mpr h, Nat.not_le.mpr hroom]

/-- What each outcome says of the whole list. -/
def Awaited.Means (width limit need : ℕ) (l : List α) : Awaited α → Prop
  | .got buffer reads => need ≤ buffer.length ∧ buffer.length < limit + width ∧
    buffer ++ reads.flatten = l ∧ ∀ piece ∈ reads, piece ≠ [] ∧ piece.length ≤ width
  | .full => limit < need ∧ limit ≤ l.length
  | .closed buffer => buffer = l ∧ l.length < need ∧ l.length < limit

variable (need) in
theorem await_means (hbuffer : buffer.length < limit + width)
    (hpieces : ∀ piece ∈ reads, piece ≠ [] ∧ piece.length ≤ width) :
    (await limit need buffer reads).Means width limit need (buffer ++ reads.flatten) := by
  induction reads generalizing buffer with
  | nil =>
    rw [flatten_nil, append_nil]
    rcases Nat.lt_or_ge buffer.length need with hneed | hneed
    · rcases Nat.lt_or_ge buffer.length limit with hroom | hfull
      · simp only [await, if_neg (Nat.not_le.mpr hneed), if_neg (Nat.not_le.mpr hroom)]
        exact ⟨rfl, hneed, hroom⟩
      · rw [await_full hneed hfull]
        exact ⟨by omega, hfull⟩
    · rw [await_got hneed]
      exact ⟨hneed, hbuffer, by simp, hpieces⟩
  | cons piece reads ih =>
    rcases Nat.lt_or_ge buffer.length need with hneed | hneed
    · rcases Nat.lt_or_ge buffer.length limit with hroom | hfull
      · have hpiece := hpieces piece mem_cons_self
        rw [await_read hneed hroom, flatten_cons, ← append_assoc]
        refine ih ?_ fun p hp => hpieces p (mem_cons_of_mem _ hp)
        rw [length_append]
        omega
      · rw [await_full hneed hfull]
        refine ⟨by omega, ?_⟩
        rw [length_append]
        omega
    · rw [await_got hneed]
      exact ⟨hneed, hbuffer, rfl, hpieces⟩

variable (hbuffer : buffer.length < limit + width)
  (hpieces : ∀ piece ∈ reads, piece ≠ [] ∧ piece.length ≤ width)
include hbuffer hpieces

/-- What is needed within the limit is found, whatever the pieces are. -/
theorem await_of_le (hlimit : need ≤ limit) (hneed : need ≤ (buffer ++ reads.flatten).length) :
    ∃ buffer' reads', await limit need buffer reads = .got buffer' reads' ∧
      need ≤ buffer'.length ∧ buffer'.length < limit + width ∧
      buffer' ++ reads'.flatten = buffer ++ reads.flatten ∧
      ∀ piece ∈ reads', piece ≠ [] ∧ piece.length ≤ width := by
  have hmeans := await_means need hbuffer hpieces
  cases hawait : await limit need buffer reads with
  | got buffer' reads' => exact ⟨buffer', reads', rfl, by rwa [hawait] at hmeans⟩
  | full =>
    rw [hawait] at hmeans
    exact absurd hmeans.1 (by omega)
  | closed buffer' =>
    rw [hawait] at hmeans
    exact absurd hmeans.2.1 (by omega)

/-- What is too short for both the need and the limit is read to its end. -/
theorem await_short (hneed : (buffer ++ reads.flatten).length < need)
    (hlimit : (buffer ++ reads.flatten).length < limit) :
    await limit need buffer reads = .closed (buffer ++ reads.flatten) := by
  have hmeans := await_means need hbuffer hpieces
  cases hawait : await limit need buffer reads with
  | got buffer' reads' =>
    rw [hawait] at hmeans
    have hlen := congrArg length hmeans.2.2.1
    rw [length_append] at hlen
    exact absurd hmeans.1 (by omega)
  | full =>
    rw [hawait] at hmeans
    exact absurd hmeans.2 (by omega)
  | closed buffer' =>
    rw [hawait] at hmeans
    rw [hmeans.1]

/-- What is needed and not there, or further beyond the limit than a piece reaches, is never
found. -/
theorem await_beyond (hlimit : limit ≤ (buffer ++ reads.flatten).length)
    (hneed : (buffer ++ reads.flatten).length < need ∨ limit + width ≤ need) :
    await limit need buffer reads = .full := by
  have hmeans := await_means need hbuffer hpieces
  cases hawait : await limit need buffer reads with
  | got buffer' reads' =>
    rw [hawait] at hmeans
    obtain ⟨hgot, hlong, happ, -⟩ := hmeans
    have hlen := congrArg length happ
    rw [length_append] at hlen
    omega
  | full => rfl
  | closed buffer' =>
    rw [hawait] at hmeans
    exact absurd hmeans.2.2 (by omega)

omit hbuffer hpieces

/-- Single elements are read as long as neither the need nor the limit is reached before. -/
theorem await_ones_append (hneed : buffer.length + l.length ≤ need)
    (hlimit : buffer.length + l.length ≤ limit) :
    await limit need buffer (ones l ++ more) = await limit need (buffer ++ l) more := by
  induction l generalizing buffer with
  | nil => rw [append_nil]; rfl
  | cons a l ih =>
    rw [length_cons] at hneed hlimit
    show await limit need buffer ([a] :: (ones l ++ more)) = _
    have hone : (buffer ++ [a]).length = buffer.length + 1 := length_append
    rw [await_read (by omega) (by omega), ih (by omega) (by omega), append_assoc]
    rfl

theorem await_ones_take (hlimit : need ≤ limit) (hneed : need ≤ l.length) :
    await limit need [] (ones (l.take need) ++ more) = .got (l.take need) more := by
  have hlen : (l.take need).length = need := length_take_of_le hneed
  have hnil : (List.nil : List α).length = 0 := rfl
  rw [await_ones_append (by omega) (by omega), nil_append, await_got (by omega)]

/-- Single elements miss what is beyond the limit. -/
theorem await_ones (hneed : limit < need) (hlimit : limit ≤ l.length) :
    await limit need [] (ones l ++ more) = .full := by
  have hlen : (l.take limit).length = limit := length_take_of_le hlimit
  have hsplit : ones l ++ more = ones (l.take limit) ++ (ones (l.drop limit) ++ more) := by
    rw [← append_assoc, ones, ones, ones, ← map_append, take_append_drop]
  have hnil : (List.nil : List α).length = 0 := rfl
  rw [hsplit, await_ones_append (by omega) (by omega), nil_append,
    await_full (by omega) (by omega)]

/-- Single elements up to just before both the need and the limit, and the rest in one piece. -/
def jump (limit need : ℕ) (l : List α) : List (List α) :=
  ones (l.take (min need limit - 1)) ++ [(l.take need).drop (min need limit - 1)]

theorem take_before_need :
    l.take (min need limit - 1) = (l.take need).take (min need limit - 1) := by
  rw [take_take]
  congr 1
  omega

theorem await_jump (hpos : 0 < need) (hlimit : 0 < limit) (hneed : need ≤ l.length) :
    await limit need [] (jump limit need l ++ more) = .got (l.take need) more := by
  have hshort : (l.take (min need limit - 1)).length = min need limit - 1 :=
    length_take_of_le (by omega)
  have hwhole : l.take (min need limit - 1) ++ (l.take need).drop (min need limit - 1) =
      l.take need := by
    rw [take_before_need, take_append_drop]
  have hnil : (List.nil : List α).length = 0 := rfl
  rw [jump, append_assoc, await_ones_append (by omega) (by omega), nil_append, singleton_append,
    await_read (by omega) (by omega), hwhole,
    await_got (by rw [length_take_of_le hneed])]

theorem flatten_jump : (jump limit need l).flatten = l.take need := by
  have hones : (ones (l.take (min need limit - 1))).flatten = l.take (min need limit - 1) :=
    (splits_ones le_rfl _).flatten
  rw [jump, flatten_append, hones, flatten_singleton, take_before_need, take_append_drop]

theorem splits_jump (hwidth : 1 ≤ width) (hpos : 0 < need) (hlimit : 0 < limit)
    (hneed : need ≤ l.length) (hjump : need < limit + width) :
    Splits width (jump limit need l) (l.take need) := by
  have hlen : ((l.take need).drop (min need limit - 1)).length =
      need - (min need limit - 1) := by
    rw [length_drop, length_take_of_le hneed]
  have hrest : Splits width [(l.take need).drop (min need limit - 1)]
      ((l.take need).drop (min need limit - 1)) := by
    refine splits_singleton ?_ (by omega)
    intro hnil
    rw [hnil, length_nil] at hlen
    omega
  have hsplit := (splits_ones hwidth (l.take (min need limit - 1))).append hrest
  rw [jump]
  nth_rewrite 2 [take_before_need] at hsplit
  rwa [take_append_drop] at hsplit

end Await

end List
