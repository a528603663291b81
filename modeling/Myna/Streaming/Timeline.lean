import Myna.Lib.Segment
import Myna.Streaming.Dedupe
import Mathlib.Tactic.Linarith

/-!
# Myna — what was said, and a decoder that hears it

The purpose of the streaming loop, in its own terms: a `Timeline` of words was said, the decoder
hears of every region the words that start inside it, and every word is to be committed once.

* **`Timeline`** — words in order, none overlapping the next;
* **`Timeline.before`** — how many of them start before a time; what a region holds is a segment
  between two such counts (`heard_eq`);
* **`Ending`** — how a decoder reports the end of a word that outlasts its region;
* **`Timeline.history`** — the texts the dedupe remembers once `c` words are committed;
* **`Timeline.ToldApart`**, **`Timeline.Recognised`** — what the text half of the dedupe must make
  of the words: it takes no new word for an old one, and it finds an old one again.
-/

namespace Myna

/-- What was said: words in order, each ending before the next one starts. -/
structure Timeline where
  words : List Word
  nonneg : ∀ w ∈ words, 0 ≤ w.start
  spans : ∀ w ∈ words, w.start < w.stop
  ordered : words.Pairwise (fun v w => v.stop ≤ w.start)

/-- What identifies a word of the timeline, whatever end a decoder reported for it. -/
def Word.key (w : Word) : Text × Seconds := (w.text, w.start)

namespace Timeline

variable (tl : Timeline)

/-- The words that start in `[lo, hi)`. -/
def heard (lo hi : Seconds) : List Word :=
  tl.words.filter (fun w => decide (lo ≤ w.start) && decide (w.start < hi))

/-- How many words start before `t`. -/
def before (t : Seconds) : ℕ := Segment.countBelow Word.start tl.words t

variable {tl}

theorem stop_le_start {i j : ℕ} {v w : Word} (hij : i < j) (hv : tl.words[i]? = some v)
    (hw : tl.words[j]? = some w) : v.stop ≤ w.start := by
  obtain ⟨hi, rfl⟩ := List.getElem?_eq_some_iff.mp hv
  obtain ⟨hj, rfl⟩ := List.getElem?_eq_some_iff.mp hw
  exact List.pairwise_iff_getElem.mp tl.ordered i j hi hj hij

theorem start_lt_stop {i : ℕ} {w : Word} (hw : tl.words[i]? = some w) : w.start < w.stop :=
  tl.spans w (List.mem_of_getElem? hw)

theorem start_le_start {i j : ℕ} {v w : Word} (hij : i ≤ j) (hv : tl.words[i]? = some v)
    (hw : tl.words[j]? = some w) : v.start ≤ w.start := by
  rcases hij.lt_or_eq with hlt | rfl
  · exact (start_lt_stop hv).le.trans (stop_le_start hlt hv hw)
  · rw [hv] at hw
    rw [Option.some.inj hw]

variable (tl) in
theorem sorted : Segment.SortedBy Word.start tl.words := by
  refine (List.pairwise_iff_getElem.mpr fun i j hi hj hij => ?_)
  exact start_le_start hij.le (List.getElem?_eq_getElem hi) (List.getElem?_eq_getElem hj)

/-- **What a region holds is a segment of the timeline.** -/
theorem heard_eq (lo hi : Seconds) :
    tl.heard lo hi = (tl.words.take (tl.before hi)).drop (tl.before lo) :=
  Segment.filter_mem_Ico_eq tl.sorted lo hi

theorem before_le_length (t : Seconds) : tl.before t ≤ tl.words.length :=
  Segment.countBelow_le_length _ _

theorem before_mono {s t : Seconds} (h : s ≤ t) : tl.before s ≤ tl.before t :=
  Segment.countBelow_mono _ h

theorem lt_before_iff {i : ℕ} {w : Word} (hw : tl.words[i]? = some w) (t : Seconds) :
    i < tl.before t ↔ w.start < t :=
  Segment.lt_countBelow_iff tl.sorted hw t

/-- The count of the words before `t` is at most `c` where all words from `c` on start at `t` or
later. -/
theorem before_le_iff {t : Seconds} {c : ℕ} :
    tl.before t ≤ c ↔ ∀ i w, c ≤ i → tl.words[i]? = some w → t ≤ w.start := by
  constructor
  · intro h i w hi hw
    by_contra hlt
    have := (lt_before_iff hw t).mpr (not_le.mp hlt)
    omega
  · intro h
    by_contra hlt
    have hlen : c < tl.words.length := by
      have := tl.before_le_length t
      omega
    have hw := List.getElem?_eq_getElem hlen
    exact absurd ((lt_before_iff hw t).mp (not_le.mp hlt)) (not_lt.mpr (h c _ le_rfl hw))

theorem before_zero : tl.before 0 = 0 :=
  Nat.le_zero.mp (before_le_iff.mpr fun _ w _ hw => tl.nonneg w (List.mem_of_getElem? hw))

end Timeline

/-! ## The decoder -/

/-- How a decoder ends the words of a region that ends at `e`: no later than they end, and no
earlier than the region cuts them off. -/
structure Ending where
  stop : Seconds → Word → Seconds
  stop_le : ∀ e w, stop e w ≤ w.stop
  le_stop : ∀ e w, min w.stop e ≤ stop e w

/-- Every word is cut off at the end of the region. -/
def Ending.clipped : Ending where
  stop e w := min w.stop e
  stop_le _ _ := min_le_left _ _
  le_stop _ _ := le_rfl

/-- Every word is reported with its own end. -/
def Ending.whole : Ending where
  stop _ w := w.stop
  stop_le _ _ := le_rfl
  le_stop _ _ := min_le_left _ _

/-- The word as reported from a region that ends at `e`. -/
def Ending.report (ending : Ending) (e : Seconds) (w : Word) : Word :=
  { w with stop := ending.stop e w }

@[simp] theorem Ending.report_key (ending : Ending) (e : Seconds) (w : Word) :
    (ending.report e w).key = w.key := rfl

@[simp] theorem Ending.report_text (ending : Ending) (e : Seconds) (w : Word) :
    (ending.report e w).text = w.text := rfl

@[simp] theorem Ending.report_start (ending : Ending) (e : Seconds) (w : Word) :
    (ending.report e w).start = w.start := rfl

@[simp] theorem Ending.report_stop (ending : Ending) (e : Seconds) (w : Word) :
    (ending.report e w).stop = ending.stop e w := rfl

/-! ## What the dedupe makes of the words -/

namespace Timeline

/-- The comparison forms of the words `[a, b)`. -/
def texts (tl : Timeline) (U : Unicode) (a b : ℕ) : List Text :=
  ((tl.words.take b).drop a).map (fun w => U.norm w.text)

/-- `committed_word_texts` once the first `c` words are committed. -/
def history (tl : Timeline) (U : Unicode) (c : ℕ) : List Text :=
  let texts := tl.texts U 0 c
  texts.drop (texts.length - OVERLAP_LOOKBACK)

/-- **No word is taken for another.** The alignment claims no word past the committed ones, and no
word reads as a truncation of the one before it. -/
structure ToldApart (tl : Timeline) (U : Unicode) : Prop where
  aligned : ∀ a c b, a ≤ c → c ≤ b → b ≤ tl.words.length →
    U.alignmentDrop (tl.history U c) (tl.texts U a b) ≤ c - a
  whole : ∀ i v w, tl.words[i]? = some v → tl.words[i + 1]? = some w →
    U.isTruncation (U.norm v.text) w = false

/-- The `i`-th word is found again: where it was committed last, the alignment claims every word up
to it. -/
def Recognised (tl : Timeline) (U : Unicode) (i : ℕ) : Prop :=
  ∀ a b, a ≤ i → i < b → b ≤ tl.words.length →
    U.alignmentDrop (tl.history U (i + 1)) (tl.texts U a b) = i + 1 - a

theorem length_texts {tl : Timeline} {U : Unicode} {a b : ℕ} (hb : b ≤ tl.words.length) :
    (tl.texts U a b).length = b - a := by
  simp only [texts, List.length_map, List.length_drop, List.length_take]
  omega

theorem length_history_le {tl : Timeline} {U : Unicode} {c : ℕ} :
    (tl.history U c).length ≤ OVERLAP_LOOKBACK := by
  simp only [history, List.length_drop]
  omega

/-- The history ends with the last committed word. -/
theorem getLast?_history {tl : Timeline} {U : Unicode} {c : ℕ} (hc : c ≤ tl.words.length)
    {last : Text} (h : last ∈ (tl.history U c).getLast?) :
    ∃ i v, i + 1 = c ∧ tl.words[i]? = some v ∧ U.norm v.text = last := by
  have hlast : (tl.texts U 0 c).getLast? = some last := by
    rw [history, List.getLast?_drop] at h
    split_ifs at h
    · cases h
    · exact h
  rw [List.getLast?_eq_getElem?, length_texts hc, Nat.sub_zero] at hlast
  cases c with
  | zero => simp [texts] at hlast
  | succ i =>
    rw [texts, List.drop_zero, List.getElem?_map, Nat.add_sub_cancel,
      List.getElem?_take_of_lt (Nat.lt_succ_self i), Option.map_eq_some_iff] at hlast
    obtain ⟨v, hv, hnorm⟩ := hlast
    exact ⟨i, v, rfl, hv, hnorm⟩

/-- The history is extended by what is committed. -/
theorem history_append {tl : Timeline} {U : Unicode} {c b : ℕ} (hcb : c ≤ b)
    (hb : b ≤ tl.words.length) :
    let texts := tl.history U c ++ tl.texts U c b
    texts.drop (texts.length - OVERLAP_LOOKBACK) = tl.history U b := by
  have hsplit : tl.texts U 0 b = tl.texts U 0 c ++ tl.texts U c b := by
    unfold texts
    rw [← List.map_append, Segment.segment_append _ (Nat.zero_le c) hcb]
  have hlen : (tl.texts U 0 c).length = c := by
    rw [length_texts (hcb.trans hb), Nat.sub_zero]
  have hlen' : (tl.texts U c b).length = b - c := length_texts hb
  intro texts
  show texts.drop _ = (tl.texts U 0 b).drop _
  rw [hsplit]
  simp only [texts, history, List.length_append, List.length_drop, hlen, hlen']
  rw [List.drop_append, List.drop_append, List.drop_drop, List.length_drop, hlen]
  congr 2 <;> omega

/-- A single word is taken for no other. -/
theorem toldApart_of_length_le_one {tl : Timeline} (U : Unicode) (h : tl.words.length ≤ 1) :
    tl.ToldApart U where
  aligned := by
    intro a c b hac hcb hb
    rcases Nat.eq_zero_or_pos c with rfl | hc
    · -- nothing is committed yet
      have hnil : tl.history U 0 = [] := by simp [history, texts]
      rw [hnil, Unicode.alignmentDrop, if_pos (Or.inl rfl)]
      exact Nat.zero_le _
    · have hlen := Unicode.alignmentDrop_le_length (U := U) (tl.history U c) (tl.texts U a b)
      rw [length_texts hb] at hlen
      omega
  whole := by
    intro i v w _ hw
    obtain ⟨hlt, -⟩ := List.getElem?_eq_some_iff.mp hw
    omega

end Timeline

end Myna
