import Myna.Streaming.Words

/-!
# Myna — the language tags of a text (`detokenize` of `myna.testbed.nemotron`)

Nemotron writes the language after terminal punctuation, as a word of its own. A tag is dropped
with the space before it. No two tags overlap, so what is dropped of two texts put together is what
is dropped of each, unless a tag lies across the seam.

* **`dropTags`** — `_LANGUAGE_TAG.sub("", text)`;
* **`Straddles`** — a tag lies across the seam of two texts;
* **`dropTags_append`**, **`length_dropTags_append`** — what is dropped at a seam without one, and
  at a seam with one;
* **`not_straddles_of_wholeTags`** — a vocabulary whose tags are whole pieces.
-/

namespace Myna

namespace Nemotron

/-! ## The pattern -/

/-- `<[a-z]{2,3}-[A-Z]{2}>`. -/
def isTagBody : Text → Bool
  | ['<', a, b, '-', y, z, '>'] => a.isLower && b.isLower && y.isUpper && z.isUpper
  | ['<', a, b, c, '-', y, z, '>'] =>
    a.isLower && b.isLower && c.isLower && y.isUpper && z.isUpper
  | _ => false

/-- The whole text is a match of `_LANGUAGE_TAG`: a tag, or one with a space before it. -/
def isTag : Text → Bool
  | ' ' :: body => isTagBody body
  | body => isTagBody body

/-- How long the match at the head of the text is; zero where there is none. -/
def tagLength (text : Text) : ℕ :=
  ([7, 8, 9].find? fun n => decide (n ≤ text.length) && isTag (text.take n)).getD 0

/-- The scan that drops the matches, with `skip` more characters of one to drop. -/
def scan : ℕ → Text → Text
  | _, [] => []
  | skip + 1, _ :: rest => scan skip rest
  | 0, c :: rest =>
    match tagLength (c :: rest) with
    | 0 => c :: scan 0 rest
    | n + 1 => scan n rest

/-- `_LANGUAGE_TAG.sub("", text)`. -/
def dropTags (text : Text) : Text := scan 0 text

/-- The texts of the tokens, one after the other, with word starts as spaces. -/
def joined (pieces : List Text) (tokens : List ℕ) : Text :=
  (tokens.flatMap fun t => (pieces[t]?).getD []).map fun c => if c = '▁' then ' ' else c

/-- `detokenize`. -/
def detokenize (pieces : List Text) (tokens : List ℕ) : Text := dropTags (joined pieces tokens)

theorem joined_append (pieces : List Text) (a b : List ℕ) :
    joined pieces (a ++ b) = joined pieces a ++ joined pieces b := by
  simp [joined]

/-! ## What a tag is made of -/

/-- A tag opens with `<`, closes with `>`, and has neither of them nor a space in between. -/
theorem isTag_shape {m : Text} (h : isTag m = true) :
    ∃ space inner, m = space ++ '<' :: inner ++ ['>'] ∧ (space = [] ∨ space = [' ']) ∧
      (∀ c ∈ inner, c ≠ ' ' ∧ c ≠ '<' ∧ c ≠ '>') ∧ 5 ≤ inner.length ∧ inner.length ≤ 6 ∧
      isTagBody ('<' :: inner ++ ['>']) = true := by
  have hletter : ∀ c : Char, c.isLower = true ∨ c.isUpper = true ∨ c = '-' →
      c ≠ ' ' ∧ c ≠ '<' ∧ c ≠ '>' := by
    rintro c h
    refine ⟨?_, ?_, ?_⟩ <;> rintro rfl <;> revert h <;> decide
  have hbody : ∀ body, isTagBody body = true → ∃ inner, body = '<' :: inner ++ ['>'] ∧
      (∀ c ∈ inner, c ≠ ' ' ∧ c ≠ '<' ∧ c ≠ '>') ∧ 5 ≤ inner.length ∧ inner.length ≤ 6 := by
    intro body hbody
    unfold isTagBody at hbody
    split at hbody
    · next a b y z =>
      simp only [Bool.and_eq_true] at hbody
      refine ⟨[a, b, '-', y, z], rfl, fun c hc => hletter c ?_, by simp, by simp⟩
      simp only [List.mem_cons, List.not_mem_nil, or_false] at hc
      rcases hc with rfl | rfl | rfl | rfl | rfl <;> simp [hbody]
    · next a b c y z =>
      simp only [Bool.and_eq_true] at hbody
      refine ⟨[a, b, c, '-', y, z], rfl, fun c hc => hletter c ?_, by simp, by simp⟩
      simp only [List.mem_cons, List.not_mem_nil, or_false] at hc
      rcases hc with rfl | rfl | rfl | rfl | rfl | rfl <;> simp [hbody]
    · cases hbody
  unfold isTag at h
  split at h
  · next body =>
    obtain ⟨inner, rfl, hrest⟩ := hbody body h
    exact ⟨[' '], inner, rfl, .inr rfl, hrest.1, hrest.2.1, hrest.2.2, h⟩
  · obtain ⟨inner, rfl, hrest⟩ := hbody _ h
    exact ⟨[], inner, rfl, .inl rfl, hrest.1, hrest.2.1, hrest.2.2, h⟩

/-- The first closing bracket ends a tag. -/
theorem not_mem_of_isTag {m m1 m2 : Text} (h : isTag m = true) (hm : m = m1 ++ m2)
    (hne : m2 ≠ []) : '>' ∉ m1 := by
  obtain ⟨space, inner, hshape, hspace, hinner, -⟩ := isTag_shape h
  obtain ⟨m2, last, rfl⟩ := (List.eq_nil_or_concat' m2).resolve_left hne
  rw [hshape, ← List.append_assoc] at hm
  obtain ⟨hfront, -⟩ := List.append_inj' hm rfl
  intro hmem
  have hmem' : '>' ∈ space ++ '<' :: inner := by
    rw [hfront]
    exact List.mem_append_left _ hmem
  rcases List.mem_append.mp hmem' with hin | hin
  · rcases hspace with rfl | rfl
    · cases hin
    · exact absurd (List.mem_singleton.mp hin) (by decide)
  · rcases List.mem_cons.mp hin with hin | hin
    · exact absurd hin (by decide)
    · exact (hinner _ hin).2.2 rfl

theorem mem_of_isTag {m : Text} (h : isTag m = true) : '>' ∈ m := by
  obtain ⟨space, inner, rfl, -⟩ := isTag_shape h
  simp

/-- Inside a tag an opening bracket stands first, or after the one space. -/
theorem head_of_isTag {m m1 m2 : Text} {c : Char} (h : isTag m = true) (hm : m = m1 ++ c :: m2)
    (hne : m1 ≠ []) (hc : c = ' ' ∨ c = '<') : m1 = [' '] ∧ c = '<' := by
  obtain ⟨space, inner, hshape, hspace, hinner, -⟩ := isTag_shape h
  have hafter : ∀ w : Text, w ++ c :: m2 = inner ++ ['>'] → False := by
    intro w hw
    have hmem : c ∈ inner ++ ['>'] := hw ▸ by simp
    rcases List.mem_append.mp hmem with hin | hin
    · rcases hc with rfl | rfl
      · exact (hinner _ hin).1 rfl
      · exact (hinner _ hin).2.1 rfl
    · rw [List.mem_singleton.mp hin] at hc
      rcases hc with hc | hc <;> exact absurd hc (by decide)
  rw [hshape] at hm
  obtain ⟨d, m1, rfl⟩ := List.exists_cons_of_ne_nil hne
  rcases hspace with rfl | rfl
  · exact (hafter m1 (List.cons.inj hm).2.symm).elim
  · have hd : ' ' = d := (List.cons.inj hm).1
    have hrest : '<' :: (inner ++ ['>']) = m1 ++ c :: m2 := (List.cons.inj hm).2
    subst hd
    cases m1 with
    | nil => exact ⟨rfl, (List.cons.inj hrest).1.symm⟩
    | cons d m1 => exact (hafter m1 (List.cons.inj hrest).2.symm).elim

theorem isTag_ne_nil {m : Text} (h : isTag m = true) : m ≠ [] := by
  rintro rfl
  cases h

/-! ## The match at the head -/

theorem tagLength_ne_zero {text : Text} (h : tagLength text ≠ 0) :
    isTag (text.take (tagLength text)) = true ∧ tagLength text ≤ text.length := by
  unfold tagLength at h ⊢
  cases hfind : [7, 8, 9].find? fun n => decide (n ≤ text.length) && isTag (text.take n) with
  | none =>
    rw [hfind] at h
    exact absurd rfl h
  | some n =>
    have hmatch := List.find?_some hfind
    simp only [Bool.and_eq_true, decide_eq_true_eq] at hmatch
    exact ⟨hmatch.2, hmatch.1⟩

/-- A tag at the head is the match there, whatever follows it. -/
theorem tagLength_append {m : Text} (h : isTag m = true) (rest : Text) :
    tagLength (m ++ rest) = m.length := by
  have hlength : m.length ∈ [7, 8, 9] := by
    obtain ⟨space, inner, rfl, hspace, -, h5, h6, -⟩ := isTag_shape h
    have : space.length ≤ 1 := by rcases hspace with rfl | rfl <;> simp
    simp only [List.length_append, List.length_cons, List.length_nil, List.mem_cons,
      List.not_mem_nil, or_false]
    omega
  have hfound : tagLength (m ++ rest) ≠ 0 := by
    unfold tagLength
    cases hfind : [7, 8, 9].find? fun n =>
        decide (n ≤ (m ++ rest).length) && isTag ((m ++ rest).take n) with
    | none =>
      have := List.find?_eq_none.mp hfind _ hlength
      simp [h] at this
    | some n =>
      have hmem := List.mem_of_find?_eq_some hfind
      simp only [List.mem_cons, List.not_mem_nil, or_false] at hmem
      show n ≠ 0
      omega
  obtain ⟨htag, hle⟩ := tagLength_ne_zero hfound
  generalize tagLength (m ++ rest) = n at htag hle
  -- both matches end at the first closing bracket
  rcases lt_trichotomy n m.length with hlt | heq | hgt
  · have htake : (m ++ rest).take n = m.take n := List.take_append_of_le_length hlt.le
    rw [htake] at htag
    have hdrop : m.drop n ≠ [] := by
      rw [Ne, List.drop_eq_nil_iff]
      omega
    exact absurd (mem_of_isTag htag)
      (not_mem_of_isTag h (List.take_append_drop n m).symm hdrop)
  · exact heq
  · have htake : (m ++ rest).take n = m ++ rest.take (n - m.length) := by
      rw [List.take_append, List.take_of_length_le hgt.le]
    have hrest : rest.take (n - m.length) ≠ [] := by
      rw [List.length_append] at hle
      rw [Ne, List.take_eq_nil_iff]
      rintro (h0 | rfl)
      · omega
      · simp only [List.length_nil] at hle
        omega
    exact absurd (mem_of_isTag h) (not_mem_of_isTag htag htake hrest)

/-- Where the match at the head of two texts lies in the first, it is the match of the first. -/
theorem tagLength_of_append {a b : Text} (hle : tagLength (a ++ b) ≤ a.length) :
    tagLength a = tagLength (a ++ b) := by
  by_cases h0 : tagLength a = 0
  · by_contra hne
    have hne' : tagLength (a ++ b) ≠ 0 := fun h => hne (h0.trans h.symm)
    obtain ⟨htag, -⟩ := tagLength_ne_zero hne'
    rw [List.take_append_of_le_length hle] at htag
    have := tagLength_append htag (a.drop (tagLength (a ++ b)))
    rw [List.take_append_drop, List.length_take, min_eq_left hle] at this
    exact hne this
  · obtain ⟨htag, hle'⟩ := tagLength_ne_zero h0
    have := tagLength_append htag (a.drop (tagLength a) ++ b)
    rw [← List.append_assoc, List.take_append_drop, List.length_take, min_eq_left hle'] at this
    exact this.symm

/-! ## Two texts put together -/

/-- A tag lies across the seam of the two texts. -/
def Straddles (a b : Text) : Prop :=
  ∃ m1 m2, m1 ≠ [] ∧ m2 ≠ [] ∧ m1 <:+ a ∧ m2 <+: b ∧ isTag (m1 ++ m2) = true

theorem Straddles.mono {a a' b b' : Text} (h : Straddles a b) (ha : a <:+ a') (hb : b <+: b') :
    Straddles a' b' := by
  obtain ⟨m1, m2, h1, h2, hm1, hm2, htag⟩ := h
  exact ⟨m1, m2, h1, h2, hm1.trans ha, hm2.trans hb, htag⟩

/-- The scan of two texts with no tag across their seam. Induction on the first. -/
theorem scan_append : ∀ {a b : Text} {skip : ℕ}, ¬ Straddles a b → skip ≤ a.length →
    scan skip (a ++ b) = scan skip a ++ dropTags b
  | [], b, skip, _, hskip => by
    obtain rfl : skip = 0 := by simpa using hskip
    rfl
  | c :: a, b, skip + 1, hseam, hskip => by
    have hskip' : skip ≤ a.length := by simpa using hskip
    show scan skip (a ++ b) = scan skip a ++ dropTags b
    exact scan_append (fun h => hseam (h.mono (List.suffix_cons c a) (List.prefix_refl b))) hskip'
  | c :: a, b, 0, hseam, _ => by
    have hrest : ¬ Straddles a b := fun h =>
      hseam (h.mono (List.suffix_cons c a) (List.prefix_refl b))
    have hle : tagLength (c :: a ++ b) ≤ (c :: a).length := by
      by_contra hlt
      rw [not_le] at hlt
      have hne : tagLength (c :: a ++ b) ≠ 0 := by omega
      obtain ⟨htag, hlen⟩ := tagLength_ne_zero hne
      rw [List.take_append, List.take_of_length_le hlt.le] at htag
      refine hseam ⟨c :: a, _, by simp, ?_, List.suffix_rfl, List.take_prefix _ _, htag⟩
      rw [Ne, List.take_eq_nil_iff]
      rintro (h0 | rfl)
      · omega
      · simp only [List.append_nil] at hlen hlt
        omega
    have hsame := tagLength_of_append hle
    rw [List.cons_append] at hsame hle ⊢
    rw [scan, scan, hsame]
    cases hn : tagLength (c :: (a ++ b)) with
    | zero => rw [scan_append hrest (Nat.zero_le _), List.cons_append]
    | succ n =>
      rw [hn, List.length_cons] at hle
      exact scan_append hrest (by omega)

/-- **With no tag across the seam, what is dropped is what is dropped of each text.** -/
theorem dropTags_append {a b : Text} (h : ¬ Straddles a b) :
    dropTags (a ++ b) = dropTags a ++ dropTags b :=
  scan_append h (Nat.zero_le _)

/-- A text without a closing bracket has no tag. -/
theorem dropTags_eq_self : ∀ {a : Text}, '>' ∉ a → dropTags a = a
  | [], _ => rfl
  | c :: a, h => by
    have hnone : tagLength (c :: a) = 0 := by
      by_contra hne
      exact h (List.mem_of_mem_take (mem_of_isTag (tagLength_ne_zero hne).1))
    unfold dropTags
    rw [scan, hnone]
    show c :: dropTags a = c :: a
    rw [dropTags_eq_self fun hin => h (List.mem_cons_of_mem c hin)]

theorem dropTags_tag {m : Text} (h : isTag m = true) : dropTags m = [] := by
  have hskip : ∀ (l : Text) n, l.length ≤ n → scan n l = [] := by
    intro l
    induction l with
    | nil => intro n _; cases n <;> rfl
    | cons c l ih =>
      intro n hn
      cases n with
      | zero => simp at hn
      | succ n => exact ih n (by simpa using hn)
  have hlength := tagLength_append h []
  rw [List.append_nil] at hlength
  obtain ⟨c, rest, rfl⟩ := List.exists_cons_of_ne_nil (isTag_ne_nil h)
  unfold dropTags
  rw [scan, hlength]
  exact hskip rest _ le_rfl

/-- No tag lies across the end of another. -/
theorem not_straddles_end {m1 m2 rest : Text} (h : isTag (m1 ++ m2) = true) (hne : m2 ≠ []) :
    ¬ Straddles m2 rest := by
  rintro ⟨n1, n2, hn1, hn2, hsuffix, -, htag⟩
  -- the last character of the tag is its closing bracket
  obtain ⟨space, inner, hshape, -⟩ := isTag_shape h
  have hlast : ∃ before, m1 ++ m2 = before ++ n1 ∧ n1 ≠ [] := by
    obtain ⟨before, rfl⟩ := hsuffix
    exact ⟨m1 ++ before, by rw [List.append_assoc], hn1⟩
  obtain ⟨before, hbefore, -⟩ := hlast
  obtain ⟨front, last, rfl⟩ := (List.eq_nil_or_concat' n1).resolve_left hn1
  rw [hshape, ← List.append_assoc before] at hbefore
  obtain ⟨-, hlast⟩ := List.append_inj' hbefore rfl
  obtain rfl : '>' = last := by simpa using hlast
  exact not_mem_of_isTag htag rfl hn2 (by simp)

/-- **With a tag across the seam more is dropped.** The tag is taken with the space before it; what
lies before it and behind it is scanned as it would be alone. -/
theorem length_dropTags_append {a b : Text} (h : Straddles a b) :
    (dropTags (a ++ b)).length < (dropTags a).length + (dropTags b).length := by
  -- a tag across the seam that no space stands before, unless it has one of its own
  have hwhole : ∃ before m1 m2 rest, a = before ++ m1 ∧ b = m2 ++ rest ∧ m1 ≠ [] ∧ m2 ≠ [] ∧
      isTag (m1 ++ m2) = true ∧ ¬ Straddles before (m1 ++ m2 ++ rest) := by
    obtain ⟨m1, m2, h1, h2, ⟨before, rfl⟩, ⟨rest, rfl⟩, htag⟩ := h
    obtain ⟨c, m1, rfl⟩ := List.exists_cons_of_ne_nil h1
    by_cases hspace : before.getLast? = some ' ' ∧ c = '<'
    · obtain ⟨hlast, rfl⟩ := hspace
      obtain ⟨before, rfl⟩ := List.getLast?_eq_some_iff.mp hlast
      refine ⟨before, ' ' :: '<' :: m1, m2, rest, by simp, rfl, by simp, h2, htag, ?_⟩
      rintro ⟨n1, n2, hn1, hn2, -, hpre, htag'⟩
      obtain ⟨d, n2, rfl⟩ := List.exists_cons_of_ne_nil hn2
      obtain rfl : d = ' ' := (List.cons_prefix_cons.mp hpre).1
      exact absurd (head_of_isTag htag' rfl hn1 (.inl rfl)).2 (by decide)
    · refine ⟨before, c :: m1, m2, rest, rfl, rfl, by simp, h2, htag, ?_⟩
      rintro ⟨n1, n2, hn1, hn2, hsuffix, hpre, htag'⟩
      obtain ⟨d, n2, rfl⟩ := List.exists_cons_of_ne_nil hn2
      obtain rfl : d = c := (List.cons_prefix_cons.mp hpre).1
      have hhead : d = ' ' ∨ d = '<' := by
        obtain ⟨space, inner, hshape, hspace', -⟩ := isTag_shape htag
        rcases hspace' with rfl | rfl
        · exact .inr (List.cons.inj hshape).1
        · exact .inl (List.cons.inj hshape).1
      obtain ⟨rfl, rfl⟩ := head_of_isTag htag' rfl hn1 hhead
      obtain ⟨front, rfl⟩ := hsuffix
      exact hspace ⟨by simp, rfl⟩
  obtain ⟨before, m1, m2, rest, rfl, rfl, h1, h2, htag, hbefore⟩ := hwhole
  have hend : ¬ Straddles (m1 ++ m2) rest :=
    not_straddles_end (show isTag ([] ++ (m1 ++ m2)) = true from htag) (by simp [h2])
  have hend' : ¬ Straddles m2 rest := not_straddles_end htag h2
  have hfront : ¬ Straddles before m1 := fun hs =>
    hbefore (hs.mono List.suffix_rfl ((List.prefix_append m1 m2).trans (List.prefix_append _ rest)))
  have hkept : dropTags m1 = m1 := dropTags_eq_self (not_mem_of_isTag htag rfl h2)
  have hpos : 0 < m1.length := List.length_pos_of_ne_nil h1
  have hall : before ++ m1 ++ (m2 ++ rest) = before ++ (m1 ++ m2 ++ rest) := by simp
  rw [hall, dropTags_append hbefore, dropTags_append hend, dropTags_tag htag,
    dropTags_append hfront, dropTags_append hend', hkept]
  simp only [List.length_append, List.length_nil]
  omega

/-! ## Vocabularies whose tags are whole pieces -/

/-- In every piece each opening bracket is closed, and one that opens a tag follows a space. -/
def WholeTags (pieces : List Text) : Prop :=
  ∀ t u v, joined pieces [t] = u ++ '<' :: v → '>' ∈ v ∧
    ∀ tag rest, '<' :: v = tag ++ rest → isTag tag = true → u.getLast? = some ' '

/-- The piece that a character of the text stands in. -/
theorem split_joined {pieces : List Text} : ∀ {tokens : List ℕ} {u v : Text} {c : Char},
    joined pieces tokens = u ++ c :: v → ∃ t u' v' before after, joined pieces [t] = u' ++ c :: v' ∧
      u = before ++ u' ∧ v = v' ++ after
  | [], u, v, c, h => by simp [joined] at h
  | t :: tokens, u, v, c, h => by
    have hcons : joined pieces (t :: tokens) = joined pieces [t] ++ joined pieces tokens :=
      joined_append pieces [t] tokens
    rw [hcons] at h
    rcases List.append_eq_append_iff.mp h with ⟨more, hu, hrest⟩ | ⟨more, ht, hcv⟩
    · obtain ⟨t', u', v', before, after, hpiece, rfl, rfl⟩ := split_joined hrest
      exact ⟨t', u', v', joined pieces [t] ++ before, after, hpiece, by rw [hu, List.append_assoc],
        rfl⟩
    · cases more with
      | nil =>
        rw [List.nil_append] at hcv
        obtain ⟨t', u', v', before, after, hpiece, hnil, rfl⟩ :=
          split_joined (show joined pieces tokens = [] ++ c :: v from hcv.symm)
        obtain ⟨rfl, rfl⟩ := List.append_eq_nil_iff.mp hnil.symm
        exact ⟨t', [], v', u, after, hpiece, by simp, rfl⟩
      | cons d more =>
        obtain ⟨rfl, rfl⟩ := List.cons.inj hcv
        exact ⟨t, u, more, [], joined pieces tokens, ht, rfl, rfl⟩

/-- **Where every tag is a whole piece with its own space, none lies across a seam of tokens.** -/
theorem not_straddles_of_wholeTags {pieces : List Text} (h : WholeTags pieces) (a b : List ℕ) :
    ¬ Straddles (joined pieces a) (joined pieces b) := by
  rintro ⟨m1, m2, h1, h2, ⟨before, hbefore⟩, ⟨after, hafter⟩, htag⟩
  obtain ⟨space, inner, hshape, hspace, -⟩ := isTag_shape htag
  by_cases hopen : '<' ∈ m1
  · -- the bracket is closed in its piece, before the seam
    obtain ⟨u, v, rfl⟩ := List.append_of_mem hopen
    have ha : joined pieces a = (before ++ u) ++ '<' :: v := by
      rw [← hbefore]
      simp
    obtain ⟨t, u', v', front, back, hpiece, -, hv⟩ := split_joined ha
    have hclosed := (h t u' v' hpiece).1
    refine not_mem_of_isTag htag rfl h2 ?_
    simp [hv, hclosed]
  · -- only the space lies before the seam, and the piece behind it opens with the tag
    have hm : m1 = [' '] ∧ m2 = '<' :: (inner ++ ['>']) := by
      obtain ⟨c, m1, rfl⟩ := List.exists_cons_of_ne_nil h1
      rcases hspace with rfl | rfl
      · have hc : c = '<' := (List.cons.inj hshape).1
        exact absurd (by simp [hc]) hopen
      · have hc : c = ' ' := (List.cons.inj hshape).1
        have hrest : m1 ++ m2 = '<' :: (inner ++ ['>']) := (List.cons.inj hshape).2
        cases m1 with
        | nil => exact ⟨by rw [hc], hrest⟩
        | cons d m1 =>
          have hd : d = '<' := (List.cons.inj hrest).1
          exact absurd (by simp [hd]) hopen
    obtain ⟨rfl, rfl⟩ := hm
    have hb : joined pieces b = [] ++ '<' :: (inner ++ ['>'] ++ after) := by
      rw [← hafter]
      simp
    obtain ⟨t, u', v', front, back, hpiece, hu, hv⟩ := split_joined hb
    obtain ⟨-, rfl⟩ := List.append_eq_nil_iff.mp hu.symm
    obtain ⟨hclosed, hspaced⟩ := h t [] v' hpiece
    have hsplit : [' '] ++ '<' :: (inner ++ ['>']) = ' ' :: '<' :: inner ++ ['>'] := rfl
    have hinner : '>' ∉ inner := fun hin =>
      not_mem_of_isTag htag hsplit (by simp) (by simp [hin])
    have hpre : inner ++ ['>'] <+: v' := by
      have h1 : inner ++ ['>'] <+: v' ++ back := ⟨after, hv⟩
      rcases List.prefix_or_prefix_of_prefix h1 (List.prefix_append v' back) with h1 | h1
      · exact h1
      · rcases List.prefix_concat_iff.mp h1 with heq | hin
        · rw [heq]
        · exact absurd (hin.subset hclosed) hinner
    obtain ⟨rest, hrest⟩ := hpre
    have hnone := hspaced ('<' :: (inner ++ ['>'])) rest (by rw [← hrest]; rfl) htag
    cases hnone

end Nemotron

end Myna
