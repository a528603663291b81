import Myna.Streaming.Dedupe

/-!
# Myna — what the overlap alignment drops

`alignmentDrop` matches squashed text but answers with a count of words. The match it goes by is the
longest suffix of the committed tail that the new text has, where it first has it; the answer is the
word that ends where the match does.

* **`Aligned`** — the match;
* **`EndsWord`** — a word that ends at a character of the squashed text;
* **`matchEnd_spec`**, **`coverWords_spec`** — the search and the walk;
* **`alignmentDrop_exact`** — the result.
-/

namespace Myna

/-! ## The match -/

/-- The last `k` characters. -/
def lastChars (text : Text) (k : ℕ) : Text := text.drop (text.length - k)

/-- The longest suffix of `tail`, of enough characters, that occurs in `new`: `k` characters, and
`start` is where it first does. -/
structure Aligned (tail new : Text) (k start : ℕ) : Prop where
  enough : MIN_OVERLAP_CHARS ≤ k
  within : k ≤ tail.length
  occurs : lastChars tail k <+: new.drop start
  leftmost : ∀ earlier < start, ¬ lastChars tail k <+: new.drop earlier
  longest : ∀ more ≤ tail.length, k < more → ¬ lastChars tail more <:+: new

/-- The word `last` has characters, and the words up to it squash to `stop` of them. -/
structure EndsWord (parts : List Text) (stop last : ℕ) : Prop where
  covered : (parts.take (last + 1)).flatten.length = stop
  ends : ∃ part, parts[last]? = some part ∧ part ≠ []

theorem length_lastChars {text : Text} {k : ℕ} (h : k ≤ text.length) :
    (lastChars text k).length = k := by
  unfold lastChars
  rw [List.length_drop]
  omega

theorem find_eq_some {haystack needle : Text} {start : ℕ} :
    find haystack needle = some start ↔ start ≤ haystack.length ∧
      needle <+: haystack.drop start ∧
      ∀ earlier < start, ¬ needle <+: haystack.drop earlier := by
  unfold find
  rw [List.find?_range_eq_some]
  simp only [List.isPrefixOf_iff_prefix, List.mem_range, Nat.lt_succ_iff, Bool.not_eq_true',
    ← Bool.not_eq_true]
  constructor
  · rintro ⟨hat, hle, hfirst⟩
    exact ⟨hle, hat, hfirst⟩
  · rintro ⟨hle, hat, hfirst⟩
    exact ⟨hat, hle, hfirst⟩

theorem find_eq_none {haystack needle : Text} :
    find haystack needle = none ↔ ¬ needle <:+: haystack := by
  unfold find
  rw [List.find?_eq_none]
  constructor
  · rintro hnone ⟨before, after, rfl⟩
    refine hnone before.length (List.mem_range.mpr ?_) ?_
    · rw [List.length_append, List.length_append]
      omega
    rw [List.isPrefixOf_iff_prefix, List.append_assoc, List.drop_left]
    exact List.prefix_append _ _
  · intro hnone start _ hat
    rw [List.isPrefixOf_iff_prefix] at hat
    exact hnone (hat.isInfix.trans (List.drop_suffix _ _).isInfix)

/-- The search over the suffixes of at most `most` characters. Induction on `most`. -/
theorem matchEnd_spec (tail new : Text) (most : ℕ) :
    (∃ k start, MIN_OVERLAP_CHARS ≤ k ∧ k ≤ most ∧ find new (lastChars tail k) = some start ∧
      (∀ more ≤ most, k < more → find new (lastChars tail more) = none) ∧
      matchEnd tail new most = start + k) ∨
    ((∀ k ≤ most, MIN_OVERLAP_CHARS ≤ k → find new (lastChars tail k) = none) ∧
      matchEnd tail new most = 0) := by
  induction most with
  | zero =>
    refine .inr ⟨fun k hk hmin => ?_, rfl⟩
    unfold MIN_OVERLAP_CHARS at hmin
    omega
  | succ most ih =>
    unfold matchEnd
    split
    · next hshort =>
      refine .inr ⟨fun k hk hmin => ?_, rfl⟩
      omega
    · next hlong =>
      cases hfind : find new (lastChars tail (most + 1)) with
      | some start =>
        rw [show find new (tail.drop (tail.length - (most + 1))) = some start from hfind]
        exact .inl ⟨most + 1, start, not_lt.mp hlong, le_rfl, hfind, fun more hle hlt => by omega,
          rfl⟩
      | none =>
        rw [show find new (tail.drop (tail.length - (most + 1))) = none from hfind]
        rcases ih with ⟨k, start, hmin, hk, hat, hmore, hend⟩ | ⟨hnone, hend⟩
        · refine .inl ⟨k, start, hmin, Nat.le_succ_of_le hk, hat, fun more hle hlt => ?_, hend⟩
          rcases Nat.le_succ_iff.mp hle with hle | rfl
          · exact hmore more hle hlt
          · exact hfind
        · refine .inr ⟨fun k hle hmin => ?_, hend⟩
          rcases Nat.le_succ_iff.mp hle with hle | rfl
          · exact hnone k hle hmin
          · exact hfind

/-- A suffix that occurs is no longer than the text it occurs in. -/
theorem le_of_occurs {tail new : Text} {k : ℕ} (hk : k ≤ tail.length)
    (h : lastChars tail k <:+: new) : k ≤ new.length := by
  rw [← length_lastChars hk]
  exact h.length_le

/-- **The search finds the match**, and its end. -/
theorem matchEnd_eq_iff {tail new : Text} {stop : ℕ} (hpos : 0 < stop) :
    matchEnd tail new (min tail.length new.length) = stop ↔
      ∃ k start, Aligned tail new k start ∧ start + k = stop := by
  have hspec := matchEnd_spec tail new (min tail.length new.length)
  constructor
  · intro hstop
    rcases hspec with ⟨k, start, hmin, hk, hat, hmore, hend⟩ | ⟨-, hend⟩
    · have hwithin : k ≤ tail.length := hk.trans (min_le_left _ _)
      obtain ⟨-, hoccurs, hfirst⟩ := find_eq_some.mp hat
      refine ⟨k, start, ⟨hmin, hwithin, hoccurs, hfirst, fun more hle hlt hin => ?_⟩,
        hend.symm.trans hstop⟩
      exact find_eq_none.mp (hmore more (le_min hle (le_of_occurs hle hin)) hlt) hin
    · omega
  · rintro ⟨k, start, ⟨hmin, hwithin, hoccurs, hfirst, hlongest⟩, rfl⟩
    have hin : lastChars tail k <:+: new := hoccurs.isInfix.trans (List.drop_suffix _ _).isInfix
    have hk : k ≤ min tail.length new.length := le_min hwithin (le_of_occurs hwithin hin)
    rcases hspec with ⟨k', start', hmin', hk', hat', hmore', hend⟩ | ⟨hnone, -⟩
    · have hwithin' : k' ≤ tail.length := hk'.trans (min_le_left _ _)
      obtain ⟨hle', hoccurs', hfirst'⟩ := find_eq_some.mp hat'
      have hin' : lastChars tail k' <:+: new :=
        hoccurs'.isInfix.trans (List.drop_suffix _ _).isInfix
      -- there is one longest suffix, and one first occurrence of it
      obtain rfl : k = k' := by
        rcases lt_trichotomy k k' with hlt | heq | hlt
        · exact absurd hin' (hlongest k' hwithin' hlt)
        · exact heq
        · exact absurd hin (find_eq_none.mp (hmore' k hk hlt))
      obtain rfl : start = start' := by
        rcases lt_trichotomy start start' with hlt | heq | hlt
        · exact absurd hoccurs (hfirst' start hlt)
        · exact heq
        · exact absurd hoccurs' (hfirst start' hlt)
      exact hend
    · exact absurd hin (find_eq_none.mp (hnone k hk hmin))

/-! ## The walk -/

/-- The walk takes words while they lie inside the first `stop` characters. Where it stops short of
`stop`, no words end there; where it does not, the last word that it took ends there. -/
theorem coverWords_spec (stop : ℕ) (parts : List Text) (covered : ℕ) (weight : ℚ) (drop : ℕ)
    (hle : covered ≤ stop) :
    ∃ count ≤ parts.length,
      coverWords stop parts covered weight drop =
        (covered + (parts.take count).flatten.length,
          weight + ((parts.take count).map overlapWeight).sum, drop + count) ∧
      (covered + (parts.take count).flatten.length = stop →
        count = 0 ∨ ∃ last part, count = last + 1 ∧ parts[last]? = some part ∧ part ≠ []) ∧
      (covered + (parts.take count).flatten.length ≠ stop →
        ∀ n, covered + (parts.take n).flatten.length ≠ stop) := by
  induction parts generalizing covered weight drop with
  | nil =>
    refine ⟨0, le_rfl, by simp [coverWords], fun _ => .inl rfl, fun hne n => ?_⟩
    rw [List.take_nil] at hne ⊢
    exact hne
  | cons part parts ih =>
    unfold coverWords
    split
    · next hstops =>
      refine ⟨0, Nat.zero_le _, by simp, fun _ => .inl rfl, fun hne n => ?_⟩
      have hshort : covered ≠ stop := by simpa using hne
      have hlong : stop < covered + part.length := hstops.resolve_left hshort
      cases n with
      | zero => simpa using hshort
      | succ n =>
        rw [List.take_succ_cons, List.flatten_cons, List.length_append]
        omega
    · next hgoes =>
      have hshort : covered ≠ stop := fun h => hgoes (.inl h)
      have hfits : covered + part.length ≤ stop := not_lt.mp fun h => hgoes (.inr h)
      obtain ⟨count, hcount, hwalk, hends, hnone⟩ :=
        ih (covered + part.length) (weight + overlapWeight part) (drop + 1) hfits
      refine ⟨count + 1, Nat.succ_le_succ hcount, ?_, ?_, ?_⟩
      · rw [hwalk, List.take_succ_cons, List.flatten_cons, List.length_append, List.map_cons,
          List.sum_cons, add_assoc, add_assoc, add_assoc, Nat.add_comm 1 count]
      · rw [List.take_succ_cons, List.flatten_cons, List.length_append, ← add_assoc]
        intro hstop
        refine .inr ?_
        rcases hends hstop with rfl | ⟨last, word, rfl, hlast, hne⟩
        · -- the word itself ends there, and had characters left to cover
          refine ⟨0, part, rfl, rfl, fun hnil => hshort ?_⟩
          simpa [hnil] using hstop
        · exact ⟨last + 1, word, rfl, hlast, hne⟩
      · rw [List.take_succ_cons, List.flatten_cons, List.length_append, ← add_assoc]
        intro hne n
        cases n with
        | zero => simpa using hshort
        | succ n =>
          rw [List.take_succ_cons, List.flatten_cons, List.length_append, ← add_assoc]
          exact hnone hne n

/-- One more word with characters covers more: one word ends there. -/
theorem EndsWord.unique {parts : List Text} {stop last last' : ℕ} (h : EndsWord parts stop last)
    (h' : EndsWord parts stop last') : last = last' := by
  have hle : ∀ {i j}, EndsWord parts stop i → EndsWord parts stop j → i ≤ j := by
    intro i j hi hj
    by_contra hlt
    have hlt : j + 1 ≤ i := not_le.mp hlt
    obtain ⟨part, hpart, hne⟩ := hi.ends
    have hsplit : parts.take (i + 1) = parts.take i ++ [part] := by
      rw [List.take_add_one, hpart]
      rfl
    have hcovered := hi.covered
    rw [hsplit, List.flatten_append, List.length_append, List.flatten_singleton] at hcovered
    have hpre : parts.take (j + 1) <+: parts.take i := List.take_prefix_take_left hlt
    have hshort : (parts.take (j + 1)).flatten.length ≤ (parts.take i).flatten.length := by
      obtain ⟨rest, hrest⟩ := hpre
      rw [← hrest, List.flatten_append, List.length_append]
      exact Nat.le_add_right _ _
    have hpos := List.length_pos_iff.mpr hne
    rw [hj.covered] at hshort
    omega
  exact le_antisymm (hle h h') (hle h' h)

/-! ## The result -/

namespace Unicode

variable (U : Unicode)

/-- The match ends where the word `last` does, and claims no more words than an overlap holds. -/
structure Claims (tail new : List Text) (last : ℕ) : Prop where
  aligned : ∃ k start, Aligned (U.squash tail.flatten) (new.map U.squash).flatten k start ∧
    EndsWord (new.map U.squash) (start + k) last
  bounded : (((new.map U.squash).take (last + 1)).map overlapWeight).sum ≤ MAX_OVERLAP_WORDS

variable {U}

/-- What the alignment drops is claimed. -/
theorem claims_of_drop {tail new : List Text} {last : ℕ}
    (h : U.alignmentDrop tail new = last + 1) : U.Claims tail new last := by
  unfold alignmentDrop at h
  dsimp only at h
  split at h
  · cases h
  split at h
  · cases h
  split at h
  · cases h
  next hstop =>
    obtain ⟨k, start, haligned, hend⟩ := (matchEnd_eq_iff (Nat.pos_of_ne_zero hstop)).mp rfl
    obtain ⟨count, hcount, hwalk, hends, -⟩ :=
      coverWords_spec _ (new.map U.squash) 0 0 0 (Nat.zero_le _)
    rw [hwalk] at h
    simp only [zero_add] at h hends
    split at h
    · cases h
    next hcovered =>
      split at h
      · cases h
      next hbound =>
        subst h
        rcases hends (not_not.mp hcovered) with hzero | ⟨last', part, hlast, hpart, hne⟩
        · cases hzero
        · obtain rfl : last = last' := Nat.succ.inj hlast
          exact ⟨⟨k, start, haligned, hend.symm ▸ ⟨not_not.mp hcovered, part, hpart, hne⟩⟩,
            not_lt.mp hbound⟩

/-- What is claimed is dropped. -/
theorem drop_of_claims (hlower : U.lower [] = []) {tail new : List Text} {last : ℕ}
    (h : U.Claims tail new last) : U.alignmentDrop tail new = last + 1 := by
  obtain ⟨k, start, haligned, hword⟩ := h.aligned
  have henough := haligned.enough
  unfold MIN_OVERLAP_CHARS at henough
  -- neither text squashes to nothing
  have htail : U.squash tail.flatten ≠ [] := by
    intro hnil
    have := haligned.within
    rw [hnil, List.length_nil] at this
    omega
  have hnew : (new.map U.squash).flatten ≠ [] := by
    intro hnil
    have := le_of_occurs haligned.within
      (haligned.occurs.isInfix.trans (List.drop_suffix _ _).isInfix)
    rw [hnil, List.length_nil] at this
    omega
  have hgiven : ¬ (tail = [] ∨ new = []) := by
    rintro (rfl | rfl)
    · refine htail ?_
      show (U.lower []).filter U.isAlnum = []
      rw [hlower]
      rfl
    · exact hnew rfl
  have hstop := (matchEnd_eq_iff (by omega)).mpr ⟨k, start, haligned, rfl⟩
  unfold alignmentDrop
  dsimp only
  rw [if_neg hgiven, if_neg (by rintro (hnil | hnil); exacts [htail hnil, hnew hnil]), hstop,
    if_neg (by omega)]
  obtain ⟨count, hcount, hwalk, hends, hnone⟩ :=
    coverWords_spec (start + k) (new.map U.squash) 0 0 0 (Nat.zero_le _)
  rw [hwalk]
  simp only [zero_add] at hends hnone ⊢
  have hcovered : ((new.map U.squash).take count).flatten.length = start + k := by
    by_contra hne
    exact hnone hne _ hword.covered
  rcases hends hcovered with rfl | ⟨last', part, rfl, hpart, hne⟩
  · rw [List.take_zero, List.flatten_nil, List.length_nil] at hcovered
    omega
  · obtain rfl := hword.unique ⟨hcovered, part, hpart, hne⟩
    rw [if_neg (not_not.mpr hcovered), if_neg (not_lt.mpr h.bounded)]

/-- **The overlap alignment drops exactly the repeated tail.** It drops the words up to the one that
the match ends with, where the match ends with a word and claims no more than an overlap holds, and
nothing otherwise; no word that it drops goes past the end of the match. -/
theorem alignmentDrop_exact (U : Unicode) (hlower : U.lower [] = []) (tail new : List Text) :
    (∀ last, U.alignmentDrop tail new = last + 1 ↔ U.Claims tail new last) ∧
    (U.alignmentDrop tail new = 0 ↔ ∀ last, ¬ U.Claims tail new last) ∧
    ∀ i < U.alignmentDrop tail new, ∃ k start,
      Aligned (U.squash tail.flatten) (new.map U.squash).flatten k start ∧
      ((new.map U.squash).take (i + 1)).flatten.length ≤ start + k := by
  refine ⟨fun last => ⟨claims_of_drop, drop_of_claims hlower⟩, ⟨?_, ?_⟩, ?_⟩
  · intro hnone last hclaims
    rw [drop_of_claims hlower hclaims] at hnone
    cases hnone
  · intro hnone
    cases hdrop : U.alignmentDrop tail new with
    | zero => rfl
    | succ last => exact absurd (claims_of_drop hdrop) (hnone last)
  · intro i hi
    obtain ⟨last, hdrop⟩ := Nat.exists_eq_add_one_of_ne_zero (Nat.ne_zero_of_lt hi)
    obtain ⟨k, start, haligned, hword⟩ := (claims_of_drop hdrop).aligned
    refine ⟨k, start, haligned, ?_⟩
    have hpre : (new.map U.squash).take (i + 1) <+: (new.map U.squash).take (last + 1) :=
      List.take_prefix_take_left (by omega)
    obtain ⟨rest, hrest⟩ := hpre
    rw [← hword.covered, ← hrest, List.flatten_append, List.length_append]
    exact Nat.le_add_right _ _

/-- A phrase said twice keeps its second occurrence. -/
theorem wayOr_claimed : Unicode.ascii.Claims [['w', 'a', 'y'], ['o', 'r']]
    [['w', 'a', 'y'], ['o', 'r'], ['w', 'a', 'y'], ['o', 'r'], ['o', 't', 'h', 'e', 'r']] 1 :=
  ((alignmentDrop_exact Unicode.ascii rfl [['w', 'a', 'y'], ['o', 'r']]
    [['w', 'a', 'y'], ['o', 'r'], ['w', 'a', 'y'], ['o', 'r'], ['o', 't', 'h', 'e', 'r']]).1 1).mp
    (by decide +kernel)

end Unicode

end Myna
