import Mathlib.Data.List.Basic
import Myna.Testbed.KeywordBias
import Myna.Testbed.KeywordNearest

/-!
# Myna — correcting words to keywords (`myna.testbed.keyword_bias`)

After the decode, `correct` rewrites a word that is a keyword but for accents and case to the
keyword as written, and so a run of words that spell one together, and an unsure word a near miss of
one to it. What Python's `re`, `unicodedata` and `str` say of characters is a parameter.

* **`lookupOrNearest_iff`** — the keyword a word is corrected to is strictly the nearest;
* **`correct_changes_words`** — words that are not corrected keep their tokens and their times.
-/

namespace Myna

/-- What `unicodedata`, and `re` and `str` of letters, answer. -/
structure Letters where
  isDecimal : Char → Bool
  nfkd : Text → Text
  combining : Char → Bool
  casefold : Text → Text
  isLower : Text → Bool
  isUpper : Char → Bool
  upper : Char → Text

namespace KeywordBias

/-- The most words a keyword may be heard split into. -/
def JOIN_WORDS : ℕ := 3

/-! ## A word's parts -/

section Correct

variable (U : Unicode) (L : Letters)

/-- `\w`. -/
def isWordChar (c : Char) : Bool := U.isAlnum c || c = '_'

/-- `[^\W\d_]`. -/
def isLetter (c : Char) : Bool := isWordChar U c && !L.isDecimal c && c ≠ '_'

/-- The groups of `_WORD`. -/
structure Parts where
  space : Text
  before : Text
  core : Text
  after : Text

/-- Letters, and apostrophes between them, from the front; and the rest. -/
def coreOf : Text → Text × Text
  | [] => ([], [])
  | c :: rest =>
    if isLetter U L c || (c = '\x27' && rest.head?.any (isLetter U L)) then
      (c :: (coreOf rest).1, (coreOf rest).2)
    else ([], c :: rest)

/-- `_WORD.fullmatch`: a letter is the first word character, and after the core there is none. -/
def wordMatch (word : Text) : Option Parts :=
  let space := word.takeWhile U.isSpace
  let rest := word.dropWhile U.isSpace
  let before := rest.takeWhile fun c => !isWordChar U c
  let rest := rest.dropWhile fun c => !isWordChar U c
  if rest.head?.any (isLetter U L) && (coreOf U L rest).2.all fun c => !isWordChar U c then
    some ⟨space, before, (coreOf U L rest).1, (coreOf U L rest).2⟩
  else none

/-- `_fold`. -/
def fold (text : Text) : Text := L.casefold ((L.nfkd text).filter fun c => !L.combining c)

/-- `self._spellings`: the keywords of one word by their folds, the first of each. -/
def foldedSpellings (keywords : List Text) : Dict Text Text :=
  keywords.foldl
    (fun found keyword =>
      let text := text U keyword
      if text ≠ [] ∧ ' ' ∉ text then found.setDefault (fold L text) text else found) []

/-- A keyword in lower case takes the capital of the word it replaces. -/
def cased (keyword core : Text) : Text :=
  if L.isLower keyword && core.head?.any L.isUpper then capitalised L.upper keyword else keyword

/-- The parts of a word around what replaces its core. -/
def Parts.around (parts : Parts) (replacement after : Text) : Text :=
  parts.space ++ parts.before ++ replacement ++ after

/-! ## Corrections -/

variable (spellings : Dict Text Text)

/-- `_joined`. -/
def joined (words : List Text) : Option Text := do
  let parts ← words.mapM (wordMatch U L)
  if parts.tail.any (fun part => part.before ≠ []) ||
      parts.dropLast.any (fun part => part.after ≠ []) then none
  else
    let keyword ← spellings.get? (parts.flatMap fun part => fold L part.core)
    let first ← parts.head?
    let last ← parts.getLast?
    return first.around (cased L keyword first.core) last.after

/-- The keyword a word is corrected to: its own, or where the decoder was unsure, the nearest. -/
def lookupOrNearest (folded : Text) (confidence : ℚ) : Option Text :=
  match spellings.get? folded with
  | some keyword => some keyword
  | none => if confidence < CORRECT_BELOW_CONFIDENCE then nearest spellings folded else none

/-- `_corrected`. -/
def corrected (word : Text) (confidence : ℚ) : Option Text := do
  let parts ← wordMatch U L word
  let keyword ← lookupOrNearest spellings (fold L parts.core) confidence
  if keyword = parts.core then none
  else return parts.around (cased L keyword parts.core) parts.after

/-! ## `correct` -/

/-- `l[a:b]`. -/
def cut {α : Type} (l : List α) (w : ℕ × ℕ) : List α := (l.take w.2).drop w.1

def starts (tokens : List Text) : List ℕ :=
  (List.range tokens.length).filter fun i =>
    i = 0 || (tokens[i]?).any fun token => token.head? = some ' '

/-- Where each word's tokens start and end. -/
def bounds (tokens : List Text) : List (ℕ × ℕ) :=
  let cuts := starts tokens ++ [tokens.length]
  cuts.zip cuts.tail

variable {τ : Type} (tokens : List Text) (timestamps : List τ) (confidences : List ℚ)

def wordAt (w : ℕ × ℕ) : Text := (cut tokens w).flatten

/-- The loop over the numbers of words to join. -/
def joinedSpan (words : List Text) : Option (ℕ × Text) :=
  [JOIN_WORDS, 2].findSome? fun n =>
    if n ≤ words.length then (joined U L spellings (words.take n)).map fun text => (n, text)
    else none

/-- What the words from the first on are replaced by, if anything, and how many they are; none where
a word has no confidence. -/
def replacement : List (ℕ × ℕ) → Option (ℕ × Option Text)
  | [] => none
  | w :: rest =>
    match joinedSpan U L spellings ((w :: rest).map (wordAt tokens)) with
    | some (n, text) => some (n, some text)
    | none => do
      let confidence ← (cut confidences w).min?
      return (1, corrected U L spellings (wordAt tokens w) confidence)

/-- The loop over the words; none where it raises. -/
def correctFrom : ℕ → List (ℕ × ℕ) → Option (List Text × List τ)
  | 0, _ => some ([], [])
  | _, [] => some ([], [])
  | fuel + 1, w :: rest => do
    let (span, replaced) ← replacement U L spellings tokens confidences (w :: rest)
    let (outTokens, outTimes) ← correctFrom fuel ((w :: rest).drop span)
    match replaced with
    | none => return (cut tokens w ++ outTokens, cut timestamps w ++ outTimes)
    | some text => do
      let time ← timestamps[w.1]?
      return (text :: outTokens, time :: outTimes)

def correct : Option (List Text × List τ) :=
  correctFrom U L spellings tokens timestamps confidences (bounds tokens).length (bounds tokens)

/-! ## A word's parts, and its nearest keyword -/

variable {U L}

theorem coreOf_append (text : Text) : (coreOf U L text).1 ++ (coreOf U L text).2 = text := by
  induction text with
  | nil => rfl
  | cons c rest ih =>
    rw [coreOf]
    split_ifs
    · exact congrArg (c :: ·) ih
    · rfl

/-- A word is its parts, and its core has a letter. -/
theorem wordMatch_eq {word : Text} {parts : Parts} (h : wordMatch U L word = some parts) :
    parts.around parts.core parts.after = word ∧
      ∃ c ∈ parts.core.head?, isLetter U L c = true := by
  unfold wordMatch at h
  dsimp only at h
  split_ifs at h with hmatch
  obtain rfl := Option.some.inj h
  rw [Bool.and_eq_true] at hmatch
  constructor
  · unfold Parts.around
    dsimp only
    rw [List.append_assoc, List.append_assoc, coreOf_append, List.takeWhile_append_dropWhile,
      List.takeWhile_append_dropWhile]
  · dsimp only
    obtain ⟨hhead, -⟩ := hmatch
    cases hrest : (word.dropWhile U.isSpace).dropWhile fun c => !isWordChar U c with
    | nil =>
      rw [hrest] at hhead
      cases hhead
    | cons c rest =>
      rw [hrest] at hhead
      have hc : isLetter U L c = true := hhead
      rw [coreOf, if_pos (by rw [hc, Bool.true_or])]
      exact ⟨c, rfl, hc⟩

theorem nodup_foldedSpellings (keywords : List Text) :
    (foldedSpellings U L keywords).keys.Nodup := by
  unfold foldedSpellings
  induction keywords using List.reverseRecOn with
  | nil => exact List.nodup_nil
  | append_singleton keywords keyword ih =>
    rw [List.foldl_append, List.foldl_cons, List.foldl_nil]
    dsimp only
    split_ifs
    · exact Dict.nodup_keys_setDefault ih _ _
    · exact ih

variable {spellings}

/-- A keyword is strictly the nearest to a word: the word's own, or one within reach of an unsure
word that is long enough. -/
def Near (spellings : Dict Text Text) (folded : Text) (confidence : ℚ) (keyword : Text) : Prop :=
  ∃ spelling d, StrictlyNearest spellings folded spelling keyword d ∧
    (d = 0 ∨ confidence < CORRECT_BELOW_CONFIDENCE ∧ CORRECT_MIN_LETTERS ≤ folded.length ∧
      d ≤ reach folded)

/-- A word's own keyword is at no distance, and any other at some. -/
theorem strictlyNearest_own (hkeys : spellings.keys.Nodup) {folded own : Text}
    (h : spellings.get? folded = some own) {spelling keyword : Text} {d : ℕ} :
    StrictlyNearest spellings folded spelling keyword d ↔
      d = 0 ∧ spelling = folded ∧ keyword = own := by
  have hmem := Dict.mem_of_get? h
  constructor
  · rintro ⟨hin, hdistance, hfurther⟩
    have hspelling : spelling = folded := by
      by_contra hne
      have hlt := hfurther _ hmem (Ne.symm hne) 0 (EditDistance.isDistance_zero_iff.mpr rfl)
      exact absurd hlt (Nat.not_lt_zero d)
    subst hspelling
    have hget := Dict.get?_of_mem hkeys hin
    rw [h] at hget
    exact ⟨hdistance.unique (EditDistance.isDistance_zero_iff.mpr rfl), rfl,
      (Option.some.inj hget).symm⟩
  · rintro ⟨rfl, rfl, rfl⟩
    refine ⟨hmem, EditDistance.isDistance_zero_iff.mpr rfl, fun entry _ hne d' hd' => ?_⟩
    rw [Nat.pos_iff_ne_zero]
    rintro rfl
    exact hne (EditDistance.isDistance_zero_iff.mp hd').symm

/-- **The keyword a word is corrected to is strictly the nearest.** -/
theorem lookupOrNearest_iff (hkeys : spellings.keys.Nodup) {folded keyword : Text}
    {confidence : ℚ} :
    lookupOrNearest spellings folded confidence = some keyword ↔
      Near spellings folded confidence keyword := by
  unfold lookupOrNearest Near
  cases hget : spellings.get? folded with
  | some own =>
    constructor
    · intro h
      obtain rfl := Option.some.inj h
      exact ⟨folded, 0, (strictlyNearest_own hkeys hget).mpr ⟨rfl, rfl, rfl⟩, .inl rfl⟩
    · rintro ⟨spelling, d, hnearest, -⟩
      rw [((strictlyNearest_own hkeys hget).mp hnearest).2.2]
  | none =>
    dsimp only
    constructor
    · intro h
      split_ifs at h with hconfidence
      obtain ⟨hlength, spelling, d, hreach, hnearest⟩ := (nearest_eq_some hkeys).mp h
      exact ⟨spelling, d, hnearest, .inr ⟨hconfidence, hlength, hreach⟩⟩
    · rintro ⟨spelling, d, hnearest, hzero | ⟨hconfidence, hlength, hreach⟩⟩
      · have hsame := EditDistance.isDistance_zero_iff.mp (hzero ▸ hnearest.distance)
        have hfound := Dict.get?_of_mem hkeys hnearest.mem
        rw [← hsame, hget] at hfound
        cases hfound
      · rw [if_pos hconfidence]
        exact (nearest_eq_some hkeys).mpr ⟨hlength, spelling, d, hreach, hnearest⟩

/-- What `_corrected` says of a word. -/
theorem corrected_eq_some (hkeys : spellings.keys.Nodup) {word text : Text} {confidence : ℚ} :
    corrected U L spellings word confidence = some text ↔
      ∃ parts keyword, wordMatch U L word = some parts ∧
        Near spellings (fold L parts.core) confidence keyword ∧ keyword ≠ parts.core ∧
        text = parts.around (cased L keyword parts.core) parts.after := by
  unfold corrected
  simp only [Option.bind_eq_bind, Option.bind_eq_some_iff, Option.pure_def,
    lookupOrNearest_iff hkeys]
  constructor
  · rintro ⟨parts, hparts, keyword, hnear, htext⟩
    split_ifs at htext with heq
    exact ⟨parts, keyword, hparts, hnear, heq, (Option.some.inj htext).symm⟩
  · rintro ⟨parts, keyword, hparts, hnear, hne, rfl⟩
    exact ⟨parts, hparts, keyword, hnear, if_neg hne⟩

/-- What `mapM` has read, one by one. -/
theorem forall₂_of_mapM {α β : Type} {f : α → Option β} : ∀ {as : List α} {bs : List β},
    as.mapM f = some bs → List.Forall₂ (fun a b => f a = some b) as bs
  | [], bs, h => by
    obtain rfl : [] = bs := Option.some.inj h
    exact .nil
  | a :: as, bs, h => by
    rw [List.mapM_cons, Option.bind_eq_bind, Option.bind_eq_some_iff] at h
    obtain ⟨b, hb, h⟩ := h
    rw [Option.bind_eq_bind, Option.bind_eq_some_iff] at h
    obtain ⟨rest, hrest, h⟩ := h
    obtain rfl : b :: rest = bs := Option.some.inj h
    exact .cons hb (forall₂_of_mapM hrest)

/-- Words spell a keyword together, with nothing but space between them. -/
structure SpeltTogether (U : Unicode) (L : Letters) (spellings : Dict Text Text)
    (words : List Text) (parts : List Parts) (keyword : Text) : Prop where
  words : List.Forall₂ (fun word part => wordMatch U L word = some part) words parts
  opens : ∀ part ∈ parts.tail, part.before = []
  closes : ∀ part ∈ parts.dropLast, part.after = []
  spelling : (parts.flatMap fun part => fold L part.core, keyword) ∈ spellings

theorem joined_eq_some {words : List Text} {text : Text}
    (h : joined U L spellings words = some text) :
    ∃ parts keyword first last, SpeltTogether U L spellings words parts keyword ∧
      parts.head? = some first ∧ parts.getLast? = some last ∧
      text = first.around (cased L keyword first.core) last.after := by
  unfold joined at h
  simp only [Option.bind_eq_bind, Option.bind_eq_some_iff, Option.pure_def] at h
  obtain ⟨parts, hparts, h⟩ := h
  split_ifs at h with hpunctuation
  simp only [Option.bind_eq_some_iff] at h
  obtain ⟨keyword, hkeyword, first, hfirst, last, hlast, htext⟩ := h
  rw [Bool.or_eq_true, not_or] at hpunctuation
  refine ⟨parts, keyword, first, last, ⟨?_, ?_, ?_, Dict.mem_of_get? hkeyword⟩, hfirst, hlast,
    (Option.some.inj htext).symm⟩
  · exact forall₂_of_mapM hparts
  · intro part hpart
    by_contra hne
    exact hpunctuation.1 (List.any_eq_true.mpr ⟨part, hpart, decide_eq_true hne⟩)
  · intro part hpart
    by_contra hne
    exact hpunctuation.2 (List.any_eq_true.mpr ⟨part, hpart, decide_eq_true hne⟩)

/-! ## The words of a token list -/

variable {τ : Type} {tokens : List Text} {timestamps : List τ} {confidences : List ℚ}

/-- Consecutive cuts make up a list. -/
theorem flatMap_cut {α : Type} (l : List α) : ∀ {first : ℕ} {cuts : List ℕ},
    (first :: cuts).Pairwise (· < ·) → ((first :: cuts).zip cuts).flatMap (cut l) =
      (l.take ((first :: cuts).getLast (List.cons_ne_nil _ _))).drop first
  | first, [], _ => by
    rw [List.zip_nil_right, List.getLast_singleton]
    exact (List.drop_eq_nil_of_le (by simp)).symm
  | first, next :: cuts, h => by
    obtain ⟨hfirst, hnext⟩ := List.pairwise_cons.mp h
    have hlt := hfirst next List.mem_cons_self
    have hle : next ≤ (next :: cuts).getLast (List.cons_ne_nil _ _) := by
      rcases List.mem_cons.mp (List.getLast_mem (List.cons_ne_nil next cuts)) with heq | hmem
      · exact heq.symm.le
      · exact ((List.pairwise_cons.mp hnext).1 _ hmem).le
    rw [List.zip_cons_cons, List.flatMap_cons, flatMap_cut l hnext,
      List.getLast_cons (List.cons_ne_nil next cuts)]
    generalize (next :: cuts).getLast _ = stop at hle
    unfold cut
    dsimp only
    have hsplit := List.take_append_drop next (l.take stop)
    rw [List.take_take, min_eq_left hle] at hsplit
    conv_rhs => rw [← hsplit]
    rw [List.drop_append]
    by_cases hlong : first ≤ (l.take next).length
    · rw [Nat.sub_eq_zero_of_le hlong, List.drop_zero]
    · -- the list is over before the first cut
      have hshort : l.length < first := by
        rw [List.length_take] at hlong
        omega
      rw [List.drop_eq_nil_of_le (by rw [List.length_take]; omega : (l.take stop).length ≤ next)]
      simp

theorem starts_sorted (tokens : List Text) : (starts tokens).Pairwise (· < ·) :=
  List.pairwise_lt_range.filter _

theorem lt_of_mem_starts {tokens : List Text} {i : ℕ} (h : i ∈ starts tokens) :
    i < tokens.length :=
  List.mem_range.mp (List.mem_filter.mp h).1

theorem cuts_sorted (tokens : List Text) :
    (starts tokens ++ [tokens.length]).Pairwise (· < ·) :=
  List.pairwise_append.mpr ⟨starts_sorted tokens, List.pairwise_singleton _ _, fun _ hi _ hj =>
    List.mem_singleton.mp hj ▸ lt_of_mem_starts hi⟩

theorem starts_eq (tokens : List Text) (hne : tokens ≠ []) :
    ∃ rest, starts tokens = 0 :: rest := by
  obtain ⟨n, hn⟩ := Nat.exists_eq_succ_of_ne_zero (mt List.eq_nil_of_length_eq_zero hne)
  unfold starts
  rw [hn, Nat.succ_eq_add_one, List.range_succ_eq_map, List.filter_cons]
  exact ⟨_, if_pos rfl⟩

/-- **The words make up the tokens**, and anything that comes one by one with them. -/
theorem flatMap_cut_bounds {α : Type} (l : List α) (hlength : l.length = tokens.length) :
    (bounds tokens).flatMap (cut l) = l := by
  by_cases hne : tokens = []
  · rw [hne] at hlength
    rw [hne, List.eq_nil_of_length_eq_zero hlength]
    rfl
  · obtain ⟨rest, hrest⟩ := starts_eq tokens hne
    have hsorted := cuts_sorted tokens
    unfold bounds
    dsimp only
    rw [hrest, List.cons_append] at hsorted ⊢
    rw [List.tail_cons, flatMap_cut l hsorted, List.drop_zero]
    have hlast : (0 :: (rest ++ [tokens.length])).getLast (List.cons_ne_nil _ _) =
        tokens.length := by
      rw [List.getLast_cons (by simp), List.getLast_concat]
    rw [hlast, ← hlength, List.take_length]

/-- A word has tokens, and ends where the list does or before. -/
theorem mem_bounds {w : ℕ × ℕ} (h : w ∈ bounds tokens) : w.1 < w.2 ∧ w.2 ≤ tokens.length := by
  have hsorted := cuts_sorted tokens
  unfold bounds at h
  dsimp only at h
  obtain ⟨i, hi⟩ := List.getElem?_of_mem h
  rw [List.getElem?_zip_eq_some, List.getElem?_tail] at hi
  obtain ⟨hfirst, hsecond⟩ := hi
  constructor
  · obtain ⟨h₁, hw₁⟩ := List.getElem?_eq_some_iff.mp hfirst
    obtain ⟨h₂, hw₂⟩ := List.getElem?_eq_some_iff.mp hsecond
    rw [← hw₁, ← hw₂]
    exact List.pairwise_iff_getElem.mp hsorted i (i + 1) h₁ h₂ (Nat.lt_succ_self i)
  · rcases List.mem_append.mp (List.mem_of_getElem? hsecond) with hmem | hmem
    · exact (lt_of_mem_starts hmem).le
    · exact (List.mem_singleton.mp hmem).le

/-! ## What `correct` returns -/

section Rewritten

variable (U L spellings tokens timestamps confidences)

/-- What the words, tokens at a time, become: each is kept with its tokens and times, or it or a run
of two or three with it is replaced by one token, at the time of its first. -/
inductive Rewritten : List (ℕ × ℕ) → List Text → List τ → Prop
  | nil : Rewritten [] [] []
  | kept {w : ℕ × ℕ} {rest : List (ℕ × ℕ)} {out : List Text} {times : List τ}
      (hkept : ∀ parts keyword confidence, wordMatch U L (wordAt tokens w) = some parts →
        (cut confidences w).min? = some confidence →
        Near spellings (fold L parts.core) confidence keyword → keyword = parts.core)
      (tail : Rewritten rest out times) :
      Rewritten (w :: rest) (cut tokens w ++ out) (cut timestamps w ++ times)
  | corrected {w : ℕ × ℕ} {rest : List (ℕ × ℕ)} {out : List Text} {times : List τ} {time : τ}
      {confidence : ℚ} {parts : Parts} {keyword : Text}
      (hparts : wordMatch U L (wordAt tokens w) = some parts)
      (hconfidence : (cut confidences w).min? = some confidence)
      (hnear : Near spellings (fold L parts.core) confidence keyword) (hne : keyword ≠ parts.core)
      (htime : timestamps[w.1]? = some time) (tail : Rewritten rest out times) :
      Rewritten (w :: rest) (parts.around (cased L keyword parts.core) parts.after :: out)
        (time :: times)
  | joined {w : ℕ × ℕ} {run rest : List (ℕ × ℕ)} {out : List Text} {times : List τ} {time : τ}
      {parts : List Parts} {first last : Parts} {keyword : Text}
      (hrun : run.length = 1 ∨ run.length = 2)
      (hspelt : SpeltTogether U L spellings ((w :: run).map (wordAt tokens)) parts keyword)
      (hfirst : parts.head? = some first) (hlast : parts.getLast? = some last)
      (htime : timestamps[w.1]? = some time) (tail : Rewritten rest out times) :
      Rewritten (w :: (run ++ rest)) (first.around (cased L keyword first.core) last.after :: out)
        (time :: times)

end Rewritten

variable {ws : List (ℕ × ℕ)} {out : List Text} {times : List τ}

theorem length_cut {α β : Type} {l : List α} {l' : List β} (h : l.length = l'.length)
    (w : ℕ × ℕ) : (cut l w).length = (cut l' w).length := by
  unfold cut
  rw [List.length_drop, List.length_drop, List.length_take, List.length_take, h]

theorem mem_cut {w : ℕ × ℕ} (hlt : w.1 < w.2) {time : τ} (htime : timestamps[w.1]? = some time) :
    time ∈ cut timestamps w := by
  refine List.mem_of_getElem? (i := 0) ?_
  unfold cut
  rw [List.getElem?_drop, Nat.add_zero, List.getElem?_take, if_pos hlt]
  exact htime

theorem Rewritten.length (h : Rewritten U L spellings tokens timestamps confidences ws out times)
    (htimes : timestamps.length = tokens.length) : out.length = times.length := by
  induction h with
  | nil => rfl
  | kept _ _ ih => rw [List.length_append, List.length_append, ih, length_cut htimes.symm]
  | corrected _ _ _ _ _ _ ih => rw [List.length_cons, List.length_cons, ih]
  | joined _ _ _ _ _ _ ih => rw [List.length_cons, List.length_cons, ih]

/-- Every time that is kept is one of its word's. -/
theorem Rewritten.sublist (h : Rewritten U L spellings tokens timestamps confidences ws out times)
    (hws : ∀ w ∈ ws, w.1 < w.2) : times.Sublist (ws.flatMap (cut timestamps)) := by
  induction h with
  | nil => exact List.Sublist.refl _
  | kept _ _ ih =>
    rw [List.flatMap_cons]
    exact (List.Sublist.refl _).append (ih fun w hw => hws w (List.mem_cons_of_mem _ hw))
  | @corrected w rest out times time _ _ _ _ _ _ _ htime _ ih =>
    rw [List.flatMap_cons]
    exact (List.singleton_sublist.mpr (mem_cut (hws w List.mem_cons_self) htime)).append
      (ih fun w hw => hws w (List.mem_cons_of_mem _ hw))
  | @joined w run rest out times time _ _ _ _ _ _ _ _ htime _ ih =>
    rw [List.flatMap_cons, List.flatMap_append]
    have htail : times.Sublist (run.flatMap (cut timestamps) ++ rest.flatMap (cut timestamps)) :=
      (ih fun w hw => hws w (List.mem_cons_of_mem _ (List.mem_append_right _ hw))).trans
        (List.sublist_append_right _ _)
    exact (List.singleton_sublist.mpr (mem_cut (hws w List.mem_cons_self) htime)).append htail

theorem joinedSpan_eq_some {words : List Text} {n : ℕ} {text : Text}
    (h : joinedSpan U L spellings words = some (n, text)) :
    (n = 2 ∨ n = 3) ∧ n ≤ words.length ∧ joined U L spellings (words.take n) = some text := by
  unfold joinedSpan at h
  obtain ⟨m, hm, hjoined⟩ := List.exists_of_findSome?_eq_some h
  split_ifs at hjoined with hle
  obtain ⟨found, hfound, heq⟩ := Option.map_eq_some_iff.mp hjoined
  obtain ⟨rfl, rfl⟩ := Prod.mk.inj heq
  refine ⟨?_, hle, hfound⟩
  simp only [JOIN_WORDS, List.mem_cons, List.not_mem_nil, or_false] at hm
  omega

theorem exists_min? {l : List ℚ} (h : l ≠ []) : ∃ a, l.min? = some a := by
  cases l with
  | nil => exact absurd rfl h
  | cons a l => exact ⟨_, rfl⟩

/-- A turn of the loop rewrites a word, or a run of them. -/
theorem correctFrom_rewritten (hkeys : spellings.keys.Nodup)
    (htimes : timestamps.length = tokens.length)
    (hconfidences : confidences.length = tokens.length) (fuel : ℕ) {ws : List (ℕ × ℕ)}
    (hfuel : ws.length ≤ fuel) (hws : ∀ w ∈ ws, w.1 < w.2 ∧ w.2 ≤ tokens.length) :
    ∃ out times, correctFrom U L spellings tokens timestamps confidences fuel ws =
        some (out, times) ∧
      Rewritten U L spellings tokens timestamps confidences ws out times := by
  induction fuel generalizing ws with
  | zero =>
    obtain rfl := List.eq_nil_of_length_eq_zero (Nat.le_zero.mp hfuel)
    exact ⟨[], [], rfl, .nil⟩
  | succ fuel ih =>
    cases ws with
    | nil => exact ⟨[], [], rfl, .nil⟩
    | cons w rest =>
      obtain ⟨hlt, hle⟩ := hws w List.mem_cons_self
      obtain ⟨time, htime⟩ : ∃ time, timestamps[w.1]? = some time :=
        ⟨_, List.getElem?_eq_getElem (by omega)⟩
      rw [List.length_cons] at hfuel
      cases hspan : joinedSpan U L spellings ((w :: rest).map (wordAt tokens)) with
      | some found =>
        obtain ⟨n, text⟩ := found
        obtain ⟨hn, hlength, hjoined⟩ := joinedSpan_eq_some hspan
        obtain ⟨parts, keyword, first, last, hspelt, hfirst, hlast, rfl⟩ := joined_eq_some hjoined
        obtain ⟨m, rfl⟩ : ∃ m, n = m + 1 := ⟨n - 1, by omega⟩
        rw [List.length_map, List.length_cons] at hlength
        rw [← List.map_take, List.take_succ_cons] at hspelt
        have hrest : ∀ w ∈ rest.drop m, w.1 < w.2 ∧ w.2 ≤ tokens.length := fun w hw =>
          hws w (List.mem_cons_of_mem _ (List.mem_of_mem_drop hw))
        obtain ⟨out, times, hrun, htail⟩ := ih (by rw [List.length_drop]; omega) hrest
        have hrun' : (rest.take m).length = 1 ∨ (rest.take m).length = 2 := by
          rw [List.length_take]
          omega
        have hwhole := Rewritten.joined hrun' hspelt hfirst hlast htime htail
        rw [List.take_append_drop] at hwhole
        refine ⟨_, _, ?_, hwhole⟩
        rw [correctFrom, replacement, hspan]
        simp only [Option.bind_eq_bind, Option.bind_some, List.drop_succ_cons, hrun, htime,
          Option.pure_def]
      | none =>
        have hne : cut confidences w ≠ [] := by
          unfold cut
          intro hnil
          have hlength := congrArg List.length hnil
          rw [List.length_drop, List.length_take, List.length_nil] at hlength
          omega
        obtain ⟨confidence, hconfidence⟩ := exists_min? hne
        obtain ⟨out, times, hrun, htail⟩ := ih (by omega : rest.length ≤ fuel) fun w hw =>
          hws w (List.mem_cons_of_mem _ hw)
        have hreplacement : replacement U L spellings tokens confidences (w :: rest) =
            some (1, corrected U L spellings (wordAt tokens w) confidence) := by
          rw [replacement, hspan]
          simp only [hconfidence, Option.bind_eq_bind, Option.bind_some, Option.pure_def]
        rw [correctFrom, hreplacement]
        simp only [Option.bind_eq_bind, Option.bind_some, List.drop_succ_cons, List.drop_zero, hrun]
        cases hcorrected : corrected U L spellings (wordAt tokens w) confidence with
        | none =>
          refine ⟨_, _, rfl, .kept ?_ htail⟩
          intro parts keyword confidence' hparts hconfidence' hnear
          by_contra hne
          obtain rfl : confidence = confidence' :=
            Option.some.inj (hconfidence.symm.trans hconfidence')
          have hsome := (corrected_eq_some (U := U) (L := L) hkeys).mpr
            ⟨parts, keyword, hparts, hnear, hne, rfl⟩
          rw [hcorrected] at hsome
          cases hsome
        | some text =>
          obtain ⟨parts, keyword, hparts, hnear, hne, rfl⟩ :=
            (corrected_eq_some hkeys).mp hcorrected
          refine ⟨_, _, ?_, .corrected hparts hconfidence hnear hne htime htail⟩
          simp only [htime, Option.bind_some, Option.pure_def]

end Correct

/-- Tokens and times stay one for one, the times in their order; a word keeps its tokens and times
unless a keyword other than it is strictly the nearest, which then takes the place of its core, or
unless a run of words with it spells a keyword. -/
theorem correct_changes_words (U : Unicode) (L : Letters) (keywords : List Text) {τ : Type}
    (tokens : List Text) (timestamps : List τ) (confidences : List ℚ)
    (htimes : timestamps.length = tokens.length)
    (hconfidences : confidences.length = tokens.length) :
    ∃ out times,
      correct U L (foldedSpellings U L keywords) tokens timestamps confidences =
        some (out, times) ∧
      out.length = times.length ∧ times.Sublist timestamps ∧
      (bounds tokens).flatMap (cut tokens) = tokens ∧
      Rewritten U L (foldedSpellings U L keywords) tokens timestamps confidences (bounds tokens)
        out times := by
  obtain ⟨out, times, hrun, hrewritten⟩ :=
    correctFrom_rewritten (nodup_foldedSpellings keywords) htimes hconfidences _
      (Nat.le_refl (bounds tokens).length) fun w hw => mem_bounds hw
  refine ⟨out, times, hrun, hrewritten.length htimes, ?_, flatMap_cut_bounds tokens rfl,
    hrewritten⟩
  have hsublist := hrewritten.sublist fun w hw => (mem_bounds hw).1
  rwa [flatMap_cut_bounds timestamps htimes] at hsublist

/-- The answers on ASCII text. -/
def asciiLetters : Letters where
  isDecimal := Char.isDigit
  nfkd := id
  combining _ := false
  casefold text := text.map Char.toLower
  isLower text := text.any Char.isLower && !text.any Char.isUpper
  isUpper := Char.isUpper
  upper c := [c.toUpper]

def pulseAudio : Dict Text Text :=
  foldedSpellings Unicode.ascii asciiLetters ["PulseAudio".toList]

theorem the_kept : ∃ out times,
    correct Unicode.ascii asciiLetters pulseAudio [" the".toList, " pulseaudoi".toList] [1, 2]
      [9 / 10, 5 / 10] = some (out, times) ∧
    out.length = times.length ∧ times.Sublist [1, 2] := by
  obtain ⟨out, times, hrun, hlength, hsublist, -⟩ :=
    correct_changes_words Unicode.ascii asciiLetters ["PulseAudio".toList]
      [" the".toList, " pulseaudoi".toList] ([1, 2] : List ℕ) [9 / 10, 5 / 10] rfl rfl
  exact ⟨out, times, hrun, hlength, hsublist⟩

/-- Two words that no keyword is near to are replaced by the one they spell together. -/
theorem pulse_audio_joined :
    nearest pulseAudio "pulse".toList = none ∧ nearest pulseAudio "audio".toList = none ∧
    pulseAudio.get? "pulse".toList = none ∧ pulseAudio.get? "audio".toList = none ∧
    correct Unicode.ascii asciiLetters pulseAudio [" pulse".toList, " audio".toList] [1, 2]
      [9 / 10, 9 / 10] = some ([" PulseAudio".toList], [1]) :=
  ⟨by decide +kernel, by decide +kernel, by decide +kernel, by decide +kernel, by decide +kernel⟩

end KeywordBias

end Myna
