import Myna.Streaming.LoopFrame
import Myna.Streaming.Timeline

/-!
# Myna — a transcript that has settled the first words of a timeline

Where the decoder hears a timeline, the state of the loop is a count: the first `c` words are
committed, and the window still holds every word after them.

* **`Recorded`** — the commits are the first `c` words, and the dedupe history is theirs;
* **`Settled`** — and the window and the text watermark tell those words from the rest;
* **`Settled.freshWords_eq`** — the dedupe keeps of a region exactly the words from `c` on;
* **`Settled.boundary`** — a boundary commits up to the first word it holds back, and retires no
  audio of the words after it.
-/

namespace Myna

/-- The decoder hears the timeline: of a region it returns the words that start inside it. -/
def Env.Hears {K : Type*} (env : Env K) (tl : Timeline) (ending : Ending) : Prop :=
  ∀ n samples offset, (env.decode n samples offset).words
    = (tl.heard offset (offset + secondsAt samples.length)).map
        (ending.report (offset + secondsAt samples.length))

/-- Every word has a character that is not whitespace. -/
def Timeline.Audible (tl : Timeline) (U : Unicode) : Prop :=
  ∀ w ∈ tl.words, ∃ c ∈ w.text, U.isSpace c = false

namespace Loop

variable {K : Type*}

/-- The words committed so far. -/
def committedWords (tr : Transcript) : List Word := tr.commits.flatMap Prod.snd

/-- The first `c` words of the timeline are committed, each once and in order, and nothing else. -/
structure Recorded (U : Unicode) (tl : Timeline) (tr : Transcript) (c : ℕ) : Prop where
  le_length : c ≤ tl.words.length
  committed : (committedWords tr).map Word.key = (tl.words.take c).map Word.key
  history : tr.committedWordTexts = tl.history U c

/-- The first `c` words are committed, and the window and the watermark tell them from the rest. -/
structure Settled (U : Unicode) (tl : Timeline) (tr : Transcript) (w : RollingWindow) (c : ℕ) : Prop
    extends Recorded U tl tr c where
  /-- The window holds every word to come. -/
  kept : tl.before (secondsAt w.retainedStart) ≤ c
  /-- Where no overlap is kept it holds no committed one. -/
  apart : w.processedThrough ≤ w.retainedStart → c ≤ tl.before (secondsAt w.retainedStart)
  /-- A committed word it still holds ends at the watermark, or is found again by its text. -/
  old : ∀ i x, i < c → tl.words[i]? = some x → secondsAt w.retainedStart ≤ x.start →
    x.stop ≤ tr.committedThrough + 1 / 1000 ∨ (i + 1 = c ∧ tl.Recognised U i)
  new : ∀ i x, c ≤ i → tl.words[i]? = some x → tr.committedThrough ≤ x.start
  passed : ∀ i x, i < c → tl.words[i]? = some x → x.start < tr.committedThrough
  heard : c ≤ tl.before (secondsAt w.received)

variable {env : Env K} {tl : Timeline} {ending : Ending} {s : LoopState K} {c : ℕ}

/-! ## What a region reports -/

/-- The words `[a, b)` as a region that ends at `e` reports them. -/
def reported (tl : Timeline) (ending : Ending) (e : Seconds) (a b : ℕ) : List Word :=
  ((tl.words.take b).drop a).map (ending.report e)

theorem getElem?_reported {e : Seconds} {a b i : ℕ} (hi : a + i < b) :
    (reported tl ending e a b)[i]? = (tl.words[a + i]?).map (ending.report e) := by
  rw [reported, List.getElem?_map, List.getElem?_drop, List.getElem?_take_of_lt hi]

theorem length_reported {e : Seconds} {a b : ℕ} (hb : b ≤ tl.words.length) :
    (reported tl ending e a b).length = b - a := by
  rw [reported, List.length_map, List.length_drop, List.length_take, min_eq_left hb]

theorem take_reported {e : Seconds} {a b k : ℕ} (hk : a + k ≤ b) :
    (reported tl ending e a b).take k = reported tl ending e a (a + k) := by
  rw [reported, reported, ← List.map_take, List.take_drop, List.take_take, min_eq_left hk]

/-! ## What is fresh -/

/-- **The dedupe keeps exactly the words from `c` on**, of a region that starts with the window. -/
theorem Settled.freshWords_eq (h : Settled env.unicode tl s.transcript s.window c)
    (htold : tl.ToldApart env.unicode) (ending : Ending) (e : Seconds) {b : ℕ}
    (hb : b ≤ tl.words.length)
    (hnew : ∀ i x, c ≤ i → i < b → tl.words[i]? = some x →
      s.transcript.committedThrough + 1 / 1000 < ending.stop e x) :
    freshWords env s (reported tl ending e (tl.before s.window.start) b)
      = reported tl ending e c b := by
  unfold freshWords reported
  by_cases hpt : s.window.processedThrough ≤ s.window.retainedStart
  · -- no overlap: the window starts at the first word to come
    rw [if_pos hpt, RollingWindow.start, h.kept.antisymm (h.apart hpt)]
  · rw [if_neg hpt, h.history]
    have hkept : tl.before s.window.start ≤ c := h.kept
    set a := tl.before s.window.start with ha
    have hold : ∀ i x, a ≤ i → i < c → tl.words[i]? = some x →
        ending.stop e x ≤ s.transcript.committedThrough + 1 / 1000 ∨
          (i + 1 = c ∧ tl.Recognised env.unicode i) := by
      intro i x hi hc hx
      have hstart : secondsAt s.window.retainedStart ≤ x.start :=
        Timeline.before_le_iff.mp le_rfl i x hi hx
      exact (h.old i x hc hx hstart).imp_left ((ending.stop_le e x).trans)
    have hlook : (tl.history env.unicode c).drop
        ((tl.history env.unicode c).length - OVERLAP_LOOKBACK) = tl.history env.unicode c := by
      rw [Nat.sub_eq_zero_of_le Timeline.length_history_le, List.drop_zero]
    have htexts : ∀ a b : ℕ, (((tl.words.take b).drop a).map (ending.report e)).map
        (fun w => env.unicode.norm w.text) = tl.texts env.unicode a b := by
      intro a b
      rw [List.map_map]
      rfl
    rcases le_or_gt c b with hcb | hbc
    · rw [← Segment.segment_append tl.words hkept hcb, List.map_append]
      refine Unicode.dropCommitted_append ?_ ?_ ?_ ?_
      · by_cases hrec : ∃ i, a ≤ i ∧ i + 1 = c ∧ tl.Recognised env.unicode i
        · obtain ⟨i, hai, rfl, hfound⟩ := hrec
          right
          rw [hlook, ← List.map_append, Segment.segment_append tl.words hkept hcb, htexts,
            hfound a b hai hcb hb, List.length_map, List.length_drop, List.length_take]
          omega
        · left
          intro w hw
          obtain ⟨x, hx, rfl⟩ := List.mem_map.mp hw
          obtain ⟨i, hai, hic, hi⟩ := Segment.mem_segment.mp hx
          rcases hold i x hai hic hi with hle | ⟨hlast, hfound⟩
          · exact hle
          · exact absurd ⟨i, hai, hlast, hfound⟩ hrec
      · intro w hw
        obtain ⟨x, hx, rfl⟩ := List.mem_map.mp hw
        obtain ⟨i, hci, hib, hi⟩ := Segment.mem_segment.mp hx
        exact hnew i x hci hib hi
      · rw [hlook, ← List.map_append, Segment.segment_append tl.words hkept hcb, htexts]
        refine (htold.aligned a c b hkept hcb hb).trans ?_
        rw [List.length_map, List.length_drop, List.length_take]
        have := h.le_length
        omega
      · -- the first new word follows the last committed one
        intro w hw last hlast
        obtain ⟨i, v, rfl, hv, rfl⟩ := Timeline.getLast?_history h.le_length hlast
        rw [List.head?_map, List.head?_drop, Option.mem_def, Option.map_eq_some_iff] at hw
        obtain ⟨x, hx, rfl⟩ := hw
        have hx' : tl.words[i + 1]? = some x := by
          obtain ⟨hlt, -⟩ := List.getElem?_eq_some_iff.mp hx
          rw [List.length_take] at hlt
          rwa [List.getElem?_take_of_lt (by omega)] at hx
        exact htold.whole i v x hv hx'
    · have hnil : (tl.words.take b).drop c = [] :=
        List.drop_of_length_le (by rw [List.length_take]; exact (min_le_left _ _).trans hbc.le)
      rw [hnil, List.map_nil, ← List.append_nil (((tl.words.take b).drop a).map _)]
      refine Unicode.dropCommitted_append (Or.inl ?_) (by simp) ?_ (by simp)
      · intro w hw
        obtain ⟨x, hx, rfl⟩ := List.mem_map.mp hw
        obtain ⟨i, hai, hib, hi⟩ := Segment.mem_segment.mp hx
        rcases hold i x hai (hib.trans hbc) hi with hle | ⟨hlast, -⟩
        · exact hle
        · omega
      · rw [List.append_nil]
        refine (Unicode.alignmentDrop_le_length _ _).trans ?_
        rw [List.length_map]

/-! ## Committing -/

/-- Committing the words from `c` up to `b` records them. -/
theorem Recorded.commit (h : Recorded env.unicode tl s.transcript c)
    (haudible : tl.Audible env.unicode) {b : ℕ} {e : Seconds} (hb : b ≤ tl.words.length)
    {words : List Word}
    (hfresh : freshWords env s words = reported tl ending e c b) :
    Recorded env.unicode tl (commit env s words).2.transcript (max c b) ∧
      (commit env s words).2.transcript.committedThrough = s.transcript.committedThrough := by
  rw [reported] at hfresh
  rcases le_or_gt b c with hbc | hcb
  · -- nothing is fresh
    have hnil : freshText env s words = [] := by
      have hdrop : (tl.words.take b).drop c = [] :=
        List.drop_of_length_le (by rw [List.length_take]; exact (min_le_left _ _).trans hbc)
      rw [freshText, hfresh, hdrop]
      rfl
    rw [Loop.commit, if_pos hnil, max_eq_left hbc]
    exact ⟨h, rfl⟩
  · have hne : freshText env s words ≠ [] := by
      intro hnil
      have hlt : c < tl.words.length := hcb.trans_le hb
      have hx := List.getElem?_eq_getElem hlt
      have hmem : tl.words[c] ∈ (tl.words.take b).drop c :=
        Segment.mem_segment.mpr ⟨c, le_rfl, hcb, hx⟩
      obtain ⟨ch, hch, hspace⟩ := haudible _ (List.mem_of_getElem? hx)
      rw [freshText, hfresh, Unicode.joinNatural_eq_nil_iff] at hnil
      have hblank := hnil _ (List.mem_map_of_mem (f := ending.report e) hmem) ch hch
      rw [hspace] at hblank
      cases hblank
    rw [Loop.commit, if_neg hne, max_eq_right hcb.le]
    refine ⟨⟨hb, ?_, ?_⟩, rfl⟩
    · show (List.flatMap Prod.snd (s.transcript.commits ++ [(_, freshWords env s words)])).map
        Word.key = _
      rw [List.flatMap_append, List.map_append, List.flatMap_singleton, hfresh, List.map_map]
      have hkeys : Word.key ∘ ending.report e = Word.key := rfl
      have hcommitted := h.committed
      rw [committedWords] at hcommitted
      rw [hkeys, hcommitted, ← List.map_append]
      congr 1
      exact Segment.segment_append tl.words (Nat.zero_le c) hcb.le
    · have htexts : (freshWords env s words).map (fun w => env.unicode.norm w.text)
          = tl.texts env.unicode c b := by
        rw [hfresh, List.map_map]
        rfl
      show (s.transcript.committedWordTexts ++ (freshWords env s words).map _).drop _ = _
      rw [htexts, h.history]
      exact Timeline.history_append hcb.le hb

/-! ## Boundaries -/

section

variable {cut : ℕ} {retainFrom : Seconds}

/-- A boundary's words, and how it is stopped: the words it commits are not held back, and the first
one after them is. -/
theorem boundary_prefix (retainFrom : Seconds) {a b : ℕ} (hb : b ≤ tl.words.length)
    {hyp : Hypothesis}
    (hhyp : hyp.words = reported tl ending (secondsAt cut) a b) :
    a ≤ b → let k := boundaryCount hyp (secondsAt cut) retainFrom
    a + k ≤ b ∧ hyp.words.take k = reported tl ending (secondsAt cut) a (a + k) ∧
      (∀ i x, a ≤ i → i < a + k → tl.words[i]? = some x →
        heldBack (secondsAt cut) retainFrom (ending.report (secondsAt cut) x) = false) ∧
      ∀ x, a + k < b → tl.words[a + k]? = some x →
        heldBack (secondsAt cut) retainFrom (ending.report (secondsAt cut) x) = true := by
  intro hab k
  have hk : a + k ≤ b := by
    have hle := boundaryCount_le hyp (secondsAt cut) retainFrom
    rw [hhyp, length_reported hb] at hle
    show a + boundaryCount hyp (secondsAt cut) retainFrom ≤ b
    omega
  refine ⟨hk, ?_, ?_, ?_⟩
  · rw [hhyp, take_reported hk]
  · intro i x hai hik hx
    refine not_heldBack_of_lt_boundaryCount (show i - a < boundaryCount hyp _ _ from ?_) ?_
    · show i - a < k
      omega
    · rw [hhyp, getElem?_reported (by omega), Nat.add_sub_cancel' hai, hx]
      rfl
  · intro x hlt hx
    refine heldBack_boundaryCount (show hyp.words[boundaryCount hyp _ _]? = _ from ?_)
    show hyp.words[k]? = _
    rw [hhyp, getElem?_reported hlt, hx]
    rfl

/-- What the decision of a boundary leaves in the transcript: the words before `a + k` are recorded,
and the watermark has moved past the last of them, but not past a word to come. -/
theorem Settled.boundary_transcript (h : Settled env.unicode tl s.transcript s.window c)
    (htold : tl.ToldApart env.unicode) (haudible : tl.Audible env.unicode) {hyp : Hypothesis}
    {b : ℕ} (hb : b ≤ tl.words.length) (hab : tl.before s.window.start ≤ b)
    (hhyp : hyp.words = reported tl ending (secondsAt cut) (tl.before s.window.start) b)
    (hclear : ∀ i x, c ≤ i → i < b → tl.words[i]? = some x →
      heldBack (secondsAt cut) retainFrom (ending.report (secondsAt cut) x) = false →
      x.start + 1 / 1000 < ending.stop (secondsAt cut) x) :
    let n := tl.before s.window.start + boundaryCount hyp (secondsAt cut) retainFrom
    let tr := (commitDecision env s (boundaryCommit hyp (secondsAt cut) retainFrom)).2.transcript
    Recorded env.unicode tl tr (max c n) ∧
      s.transcript.committedThrough ≤ tr.committedThrough ∧
      (∀ i x, i + 1 = n → tl.before s.window.start ≤ i → tl.words[i]? = some x →
        ending.stop (secondsAt cut) x ≤ tr.committedThrough) ∧
      ∀ i x, max c n ≤ i → tl.words[i]? = some x → tr.committedThrough ≤ x.start := by
  obtain ⟨hn, htake, hfree, -⟩ := boundary_prefix retainFrom hb hhyp hab
  intro n tr
  have hkept : tl.before s.window.start ≤ c := h.kept
  have hfresh := h.freshWords_eq htold ending (secondsAt cut) (hn.trans hb) (by
    intro i x hci hin hx
    have hstart := hclear i x hci (hin.trans_le hn) hx (hfree i x (hkept.trans hci) hin hx)
    have hthrough := h.new i x hci hx
    linarith)
  obtain ⟨hrecorded, hthrough⟩ := h.toRecorded.commit haudible (hn.trans hb) hfresh
  rw [← htake] at hrecorded hthrough
  cases hlast : (hyp.words.take (boundaryCount hyp (secondsAt cut) retainFrom)).getLast? with
  | none =>
    -- nothing is decided
    have hnil := List.getLast?_eq_none_iff.mp hlast
    have hcommit : boundaryCommit hyp (secondsAt cut) retainFrom = none := by
      rw [boundaryCommit]
      simp only [hlast]
    have htr : tr = s.transcript := by
      show (commitDecision env s (boundaryCommit hyp (secondsAt cut) retainFrom)).2.transcript = _
      rw [hcommit]
      rfl
    have hzero : n = tl.before s.window.start := by
      have hlen := congrArg List.length (htake.symm.trans hnil)
      rw [length_reported (hn.trans hb), List.length_nil] at hlen
      show tl.before s.window.start + _ = _
      omega
    rw [htr, hzero, max_eq_left hkept]
    exact ⟨h.toRecorded, le_rfl, fun i x hi hai _ => absurd hi (by omega), h.new⟩
  | some w =>
    have hcommit : boundaryCommit hyp (secondsAt cut) retainFrom
        = some ⟨w.stop, hyp.words.take (boundaryCount hyp (secondsAt cut) retainFrom)⟩ := by
      rw [boundaryCommit]
      simp only [hlast]
    -- the last word decided, and its place in the timeline
    obtain ⟨i, x, hi, hai, hx, rfl⟩ : ∃ i x, i + 1 = n ∧ tl.before s.window.start ≤ i ∧
        tl.words[i]? = some x ∧ ending.report (secondsAt cut) x = w := by
      have hget := hlast
      rw [htake, List.getLast?_eq_getElem?, length_reported (hn.trans hb)] at hget
      obtain ⟨hlt, -⟩ := List.getElem?_eq_some_iff.mp hget
      rw [length_reported (hn.trans hb)] at hlt
      rw [getElem?_reported (by omega), Option.map_eq_some_iff] at hget
      obtain ⟨x, hx, hw⟩ := hget
      exact ⟨_, x, by show _ = tl.before s.window.start + _; omega, Nat.le_add_right _ _, hx, hw⟩
    have htr : tr = { (commit env s (hyp.words.take
          (boundaryCount hyp (secondsAt cut) retainFrom))).2.transcript with
        committedThrough := max s.transcript.committedThrough
          (ending.stop (secondsAt cut) x) } := by
      show (commitDecision env s (boundaryCommit hyp (secondsAt cut) retainFrom)).2.transcript = _
      rw [hcommit, ← hthrough]
      rfl
    rw [htr]
    refine ⟨⟨hrecorded.le_length, hrecorded.committed, hrecorded.history⟩, le_max_left _ _, ?_, ?_⟩
    · intro j y hj _ hy
      obtain rfl : j = i := by omega
      rw [hx] at hy
      rw [← Option.some.inj hy]
      exact le_max_right _ _
    · intro j y hj hy
      refine max_le (h.new j y ((le_max_left _ _).trans hj) hy) ?_
      have hij : i < j := by
        have := (le_max_right c n).trans hj
        omega
      exact (ending.stop_le _ _).trans (Timeline.stop_le_start hij hx hy)

/-- **A boundary at `cut`** settles the words it commits, and retires no word it does not: the first
word it holds back starts in the audio it keeps. -/
theorem Settled.boundary (h : Settled env.unicode tl s.transcript s.window c)
    (htold : tl.ToldApart env.unicode) (haudible : tl.Audible env.unicode) (hyp : Hypothesis)
    (cut : ℕ) (retainFrom : Seconds) (hrs : s.window.retainedStart ≤ cut)
      (hpt : s.window.processedThrough ≤ cut)
    (hcut : cut ≤ s.window.received)
    (hhyp : hyp.words = reported tl ending (secondsAt cut) (tl.before s.window.start)
      (tl.before (secondsAt cut)))
    (hretain : secondsAt (cut - s.window.overlap) ≤ max retainFrom s.window.start)
    (hclear : ∀ i x, c ≤ i → i < tl.before (secondsAt cut) → tl.words[i]? = some x →
      heldBack (secondsAt cut) retainFrom (ending.report (secondsAt cut) x) = false →
      x.start + 1 / 1000 < ending.stop (secondsAt cut) x)
    (hstraddle : ∀ i x, c ≤ i → i < tl.before (secondsAt cut) → tl.words[i]? = some x →
      heldBack (secondsAt cut) retainFrom (ending.report (secondsAt cut) x) = false →
      secondsAt (cut - s.window.overlap) ≤ x.start →
      x.stop ≤ ending.stop (secondsAt cut) x + 1 / 1000 ∨ tl.Recognised env.unicode i)
    (hapart : s.window.overlap = 0 → c ≤ tl.before (secondsAt cut)) :
    ∃ c', Settled env.unicode tl
      (commitDecision env s (boundaryCommit hyp (secondsAt cut) retainFrom)).2.transcript
      (s.window.retire cut) c' := by
  have hb := tl.before_le_length (secondsAt cut)
  have hab : tl.before s.window.start ≤ tl.before (secondsAt cut) :=
    Timeline.before_mono (secondsAt_le_iff.mpr hrs)
  obtain ⟨hn, -, hfree, hstop⟩ := boundary_prefix retainFrom hb hhyp hab
  obtain ⟨hrecorded, hmono, hlast, hnew⟩ := h.boundary_transcript htold haudible hb hab hhyp hclear
  set n := tl.before s.window.start + boundaryCount hyp (secondsAt cut) retainFrom with hn_def
  set tr := (commitDecision env s (boundaryCommit hyp (secondsAt cut) retainFrom)).2.transcript
  have hprocessed : (s.window.retire cut).processedThrough = cut :=
    RollingWindow.retire_processedThrough_eq hpt hcut true
  have hstart : (s.window.retire cut).retainedStart
      = max s.window.retainedStart (cut - s.window.overlap) := by
    rw [RollingWindow.retire_retainedStart, hprocessed, if_pos rfl]
  have hkeep : secondsAt s.window.retainedStart ≤ secondsAt (s.window.retire cut).retainedStart ∧
      secondsAt (cut - s.window.overlap) ≤ secondsAt (s.window.retire cut).retainedStart := by
    rw [hstart, secondsAt_le_iff, secondsAt_le_iff]
    exact ⟨le_max_left _ _, le_max_right _ _⟩
  -- a word before the last one decided ends at the watermark
  have hbefore : ∀ i x, c < n → i + 1 < n → tl.words[i]? = some x →
      x.stop ≤ tr.committedThrough + 1 / 1000 := by
    intro i x hcn hi hx
    have hlt : n - 1 < tl.words.length := by omega
    have hy := List.getElem?_eq_getElem hlt
    have hfar := hclear (n - 1) _ (by omega) (by omega) hy
      (hfree (n - 1) _ (by have := h.kept; show tl.before (secondsAt _) ≤ _; omega) (by omega) hy)
    have hle := hlast (n - 1) _ (by omega)
      (by have := h.kept; show tl.before (secondsAt _) ≤ _; omega) hy
    have hstop := Timeline.stop_le_start (by omega) hx hy
    linarith
  refine ⟨max c n, hrecorded, ?_, ?_, ?_, hnew, ?_, ?_⟩
  · -- every word to come starts in the window, and after the first word held back
    refine Timeline.before_le_iff.mpr fun i x hi hx => ?_
    have hci := (le_max_left c n).trans hi
    have hni := (le_max_right c n).trans hi
    have hwindow := Timeline.before_le_iff.mp h.kept i x hci hx
    have hoverlap : secondsAt (cut - s.window.overlap) ≤ x.start := by
      by_cases hin : i < tl.before (secondsAt cut)
      · have hlt : n < tl.words.length := by omega
        have hy := List.getElem?_eq_getElem hlt
        have hheld := (heldBack_iff.mp (hstop _ (by omega) hy)).1
        rw [Ending.report_start] at hheld
        have hstart' := Timeline.start_le_start hni hy hx
        exact hretain.trans (max_le (hheld.trans hstart') hwindow)
      · rw [Timeline.lt_before_iff hx, not_lt] at hin
        exact (secondsAt_le_iff.mpr (Nat.sub_le _ _)).trans hin
    rw [hstart]
    rcases max_choice s.window.retainedStart (cut - s.window.overlap) with hmax | hmax <;> rw [hmax]
    · exact hwindow
    · exact hoverlap
  · intro hle
    rw [hprocessed, hstart] at hle
    have hend : (s.window.retire cut).retainedStart = cut := by
      rw [hstart]
      omega
    rw [hend]
    refine max_le ?_ hn
    by_cases hov : s.window.overlap = 0
    · exact hapart hov
    · -- the window did not move: it held no committed word before either
      have hsame : s.window.retainedStart = cut := by omega
      have hc := h.apart (by omega)
      rwa [hsame] at hc
  · intro i x hi hx hge
    rcases lt_or_ge i c with hic | hci
    · rcases h.old i x hic hx (hkeep.1.trans hge) with hle | ⟨hlastc, hfound⟩
      · exact Or.inl (by linarith)
      · rcases le_or_gt n c with hnc | hcn
        · rw [max_eq_left hnc]
          exact Or.inr ⟨hlastc, hfound⟩
        · exact Or.inl (hbefore i x hcn (by omega) hx)
    · have hin : i < n := by omega
      have hmax : max c n = n := max_eq_right (by omega)
      rcases Nat.lt_or_ge (i + 1) n with hlt | hge'
      · exact Or.inl (hbefore i x (by omega) hlt hx)
      · have hlastn : i + 1 = n := by omega
        have hkept : tl.before s.window.start ≤ i := h.kept.trans hci
        rcases hstraddle i x hci (by omega) hx (hfree i x hkept hin hx) (hkeep.2.trans hge)
          with hle | hfound
        · have hreach := hlast i x hlastn hkept hx
          exact Or.inl (by linarith)
        · rw [hmax]
          exact Or.inr ⟨hlastn, hfound⟩
  · intro i x hi hx
    rcases lt_or_ge i c with hic | hci
    · exact (h.passed i x hic hx).trans_le hmono
    · have hlt : n - 1 < tl.words.length := by omega
      have hy := List.getElem?_eq_getElem hlt
      have hkept : tl.before s.window.start ≤ n - 1 := h.kept.trans (by omega)
      have hfar := hclear (n - 1) _ (by omega) (by omega) hy (hfree (n - 1) _ hkept (by omega) hy)
      have hle := hlast (n - 1) _ (by omega) hkept hy
      have hstart := Timeline.start_le_start (by omega) hx hy
      linarith
  · refine max_le h.heard (hn.trans (Timeline.before_mono ?_))
    exact secondsAt_le_iff.mpr hcut

end

/-! ## Along a run -/

/-- The window before anything was received. -/
theorem init_settled (U : Unicode) (tl : Timeline) (pair : WindowPair) :
    Settled U tl {} (.new pair) 0 where
  le_length := Nat.zero_le _
  committed := rfl
  history := rfl
  kept := by
    show tl.before (secondsAt 0) ≤ 0
    rw [secondsAt_zero, Timeline.before_zero]
  apart := fun _ => Nat.zero_le _
  old := fun i x hi => absurd hi (Nat.not_lt_zero i)
  new := fun i x _ hx => tl.nonneg x (List.mem_of_getElem? hx)
  passed := fun i x hi => absurd hi (Nat.not_lt_zero i)
  heard := Nat.zero_le _

/-- Receiving audio settles nothing and unsettles nothing. -/
theorem Settled.receive {U : Unicode} {tr : Transcript} {w w' : RollingWindow}
    (h : Settled U tl tr w c) (hrs : w'.retainedStart = w.retainedStart)
    (hpt : w'.processedThrough = w.processedThrough) (hrec : w.received ≤ w'.received) :
    Settled U tl tr w' c where
  toRecorded := h.toRecorded
  kept := by
    rw [hrs]
    exact h.kept
  apart := by
    rw [hrs, hpt]
    exact h.apart
  old := by
    rw [hrs]
    exact h.old
  new := h.new
  passed := h.passed
  heard := h.heard.trans (Timeline.before_mono (secondsAt_le_iff.mpr hrec))

/-- What the decoder hears of the window up to `stop`. -/
theorem words_region (hhears : env.Hears tl ending) {w : RollingWindow} {stream : Bytes}
    (ht : w.Tracks stream) {stop : ℕ} (hstart : w.retainedStart ≤ stop) (hstop : stop ≤ w.received)
    (n : ℕ) :
    (env.decode n (w.samples none (some stop)) w.start).words
      = reported tl ending (secondsAt stop) (tl.before w.start) (tl.before (secondsAt stop)) := by
  have hlen := ht.length_samples le_rfl hstop
  have hend : w.start + secondsAt (w.samples none (some stop)).length = secondsAt stop := by
    rw [RollingWindow.samples_stop, hlen, RollingWindow.start, secondsAt, secondsAt, secondsAt,
      ← add_div, ← Nat.cast_add, Nat.add_sub_cancel' hstart]
  rw [hhears, hend, Timeline.heard_eq, reported]

/-- What it hears of the whole window. -/
theorem words_window (hhears : env.Hears tl ending) {w : RollingWindow} {stream : Bytes}
    (ht : w.Tracks stream) (n : ℕ) :
    (env.decode n (w.samples none none) w.start).words
      = reported tl ending w.ends (tl.before w.start) (tl.before w.ends) := by
  have hwords := words_region hhears ht ht.retainedStart_le_received le_rfl n
  rwa [RollingWindow.samples_stop, ← RollingWindow.samples_whole] at hwords

/-- The end of the audio commits what is left of a window it decodes. -/
theorem Settled.resolveTail (h : Settled env.unicode tl s.transcript s.window c)
    (htold : tl.ToldApart env.unicode) (haudible : tl.Audible env.unicode)
    (hhears : env.Hears tl ending) {stream : Bytes} (ht : s.window.Tracks stream)
    (hclear : ∀ i x, c ≤ i → i < tl.before s.window.ends → tl.words[i]? = some x →
      x.start + 1 / 1000 < ending.stop s.window.ends x) :
    Recorded env.unicode tl (Loop.resolveTail env s).transcript
      (if decodesTail env s then tl.before s.window.ends else c) := by
  have hb := tl.before_le_length s.window.ends
  unfold Loop.resolveTail
  split_ifs with hdecode
  · have hwords := words_window hhears ht s.display.decodes.length
    have hmax : max c (tl.before s.window.ends) = tl.before s.window.ends := max_eq_right h.heard
    -- the decode leaves transcript and window as they are
    set t := (timedDecode env s .commit (s.window.samples none none) s.window.start).2 with ht'
    have h' : Settled env.unicode tl t.transcript t.window c := h
    have hfresh := h'.freshWords_eq htold ending s.window.ends hb (by
      intro i x hci hib hx
      have hstart := hclear i x hci hib hx
      have hthrough := h.new i x hci hx
      show s.transcript.committedThrough + 1 / 1000 < _
      linarith)
    have hrecorded := (h'.toRecorded.commit haudible hb hfresh).1
    rw [hmax] at hrecorded
    show Recorded env.unicode tl (commit env t
      (env.decode s.display.decodes.length (s.window.samples none none)
        s.window.start).words).2.transcript _
    rw [hwords]
    exact hrecorded
  · exact h.toRecorded

/-! ## Sessions -/

/-- The words committed are exactly those that start in the received audio, each once, in order. -/
def CommitsExactly [Field K] [LinearOrder K] (env : Env K) (tl : Timeline) (strategy : Strategy K)
    (audio : List Bytes) : Prop :=
  (∃ n, (session env strategy audio n).pc = .done) ∧
    ∀ n, (session env strategy audio n).pc = .done →
      (committedWords (session env strategy audio n).transcript).map Word.key
        = (tl.heard 0 (secondsAt (audio.flatten.length / 2))).map Word.key

/-- One word, in the last half second of two. -/
def lastWord : Timeline where
  words := [⟨['w', 'o', 'r', 'd'], 8 / 5, 19 / 10⟩]
  nonneg := by norm_num
  spans := by norm_num
  ordered := List.pairwise_singleton _ _

end Loop

end Myna
