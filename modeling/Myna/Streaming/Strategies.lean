import Myna.Lib.Segment
import Myna.Lib.SequenceMatcher
import Myna.Streaming.Vad
import Myna.Streaming.Words

/-!
# Myna — the commit strategies (`streaming/strategies.py`)

* **`commitRule`** — `LocalAgreement`: the longest agreed prefix of two hypotheses;
  `commitRule_spec` is all a caller needs of it;
* **`boundaryCommit`** — what a final decode up to a cut commits, and what it holds back;
* **`SilenceCut`** — the chunked policy: frames are scanned forward from `scanned`, each once, and
  a run of silence or a full window asks for a cut.
-/

namespace Myna

/-- Words ending within this of the window tail lack right context. -/
def TAIL_GUARD_S : Seconds := 1 / 2

/-- Drift two passes may show and still agree. -/
def AGREE_DRIFT_S : Seconds := 3 / 10

/-- The VAD analysis frame, in seconds and in samples. -/
def SC_FRAME_S : Seconds := 3 / 100

def FRAME_LEN : ℕ := 480

/-- What to commit for one tick; `commitEnd` is the audio time the commit covers. -/
structure CommitDecision where
  commitEnd : Seconds
  commitWords : List Word

/-! ## LocalAgreement -/

/-- The `for k in range(i2 - i1)` walk over one equal block: the agreed count and end so far. -/
def agreeBlock (last current : List Word) (windowEnd : Seconds) (i1 j1 : ℕ) :
    (n k : ℕ) → ℕ × Seconds → ℕ × Seconds
  | 0, _, agreed => agreed
  | n + 1, k, agreed =>
    match last[i1 + k]?, current[j1 + k]? with
    | some prev, some curr =>
      if |prev.start - curr.start| > AGREE_DRIFT_S then agreed
      else if curr.stop > windowEnd - TAIL_GUARD_S then agreed
      else agreeBlock last current windowEnd i1 j1 n (k + 1) (j1 + k + 1, curr.stop)
    | _, _ => agreed

/-- The loop over the opcodes: the agreed prefix ends at the first one that is not `equal`. -/
def agreeOpcodes (last current : List Word) (windowEnd : Seconds) :
    List SequenceMatcher.Opcode → ℕ × Seconds → ℕ × Seconds
  | [], agreed => agreed
  | op :: ops, agreed =>
    if op.tag = .equal then
      agreeOpcodes last current windowEnd ops
        (agreeBlock last current windowEnd op.i1 op.j1 (op.i2 - op.i1) 0 agreed)
    else agreed

/-- `LocalAgreement.commit_rule`. -/
def commitRule (U : Unicode) (last : Option Hypothesis) (current : Hypothesis)
    (windowEnd : Seconds) : Option CommitDecision :=
  if current.words = [] then none
  else
    let (agreedCount, agreedEnd) := match last with
      | none => (0, 0)
      | some last =>
        if last.words = [] then (0, 0)
        else
          let text := fun w : Word => U.lower (U.strip w.text)
          agreeOpcodes last.words current.words windowEnd
            (SequenceMatcher.opcodes (last.words.map text) (current.words.map text)) (0, 0)
    if agreedCount = 0 then none
    else some ⟨agreedEnd, current.words.take agreedCount⟩

/-- An agreed count is zero, or the end belongs to the last word it counts and keeps clear of the
window tail. -/
def Agreed (current : List Word) (windowEnd : Seconds) (agreed : ℕ × Seconds) : Prop :=
  agreed.1 = 0 ∨ ∃ n w, agreed.1 = n + 1 ∧ current[n]? = some w ∧ agreed.2 = w.stop ∧
    w.stop ≤ windowEnd - TAIL_GUARD_S

theorem agreeBlock_agreed {last current : List Word} {windowEnd : Seconds} (i1 j1 n k : ℕ)
    {agreed : ℕ × Seconds} (h : Agreed current windowEnd agreed) :
    Agreed current windowEnd (agreeBlock last current windowEnd i1 j1 n k agreed) := by
  induction n generalizing k agreed with
  | zero => exact h
  | succ n ih =>
    unfold agreeBlock
    split
    · next prev curr _ hcurr =>
      split_ifs with hdrift hguard
      · exact h
      · exact h
      · exact ih (k + 1) (Or.inr ⟨j1 + k, curr, rfl, hcurr, rfl, not_lt.mp hguard⟩)
    · exact h

theorem agreeOpcodes_agreed {last current : List Word} {windowEnd : Seconds}
    (ops : List SequenceMatcher.Opcode) {agreed : ℕ × Seconds}
    (h : Agreed current windowEnd agreed) :
    Agreed current windowEnd (agreeOpcodes last current windowEnd ops agreed) := by
  induction ops generalizing agreed with
  | nil => exact h
  | cons op ops ih =>
    unfold agreeOpcodes
    split_ifs
    · exact ih (agreeBlock_agreed _ _ _ _ h)
    · exact h

/-- **What agreement commits.** A non-empty prefix of the current hypothesis, up to the end of its
last word, which keeps clear of the window tail. -/
theorem commitRule_spec {U : Unicode} {last : Option Hypothesis} {current : Hypothesis}
    {windowEnd : Seconds} {d : CommitDecision}
    (h : commitRule U last current windowEnd = some d) :
    ∃ n w, current.words[n]? = some w ∧ d.commitWords = current.words.take (n + 1) ∧
      d.commitEnd = w.stop ∧ w.stop ≤ windowEnd - TAIL_GUARD_S := by
  have hzero : Agreed current.words windowEnd (0, 0) := Or.inl rfl
  unfold commitRule at h
  split_ifs at h with hnil
  generalize hagreed : (match last with
    | none => ((0, 0) : ℕ × Seconds)
    | some last => _) = agreed at h
  have hinv : Agreed current.words windowEnd agreed := by
    subst hagreed
    split
    · exact hzero
    · split_ifs
      · exact hzero
      · exact agreeOpcodes_agreed _ hzero
  obtain ⟨count, stop⟩ := agreed
  simp only at h
  split_ifs at h with hcount
  obtain rfl := Option.some.inj h
  rcases hinv with h0 | ⟨n, w, hn, hw, hend, hguard⟩
  · exact absurd h0 hcount
  · simp only at hn hend
    subst hn hend
    exact ⟨n, w, hw, rfl, rfl, hguard⟩

/-! ## The boundary decision -/

/-- A word the next region decodes again: it lies in the retained audio and ends near the cut. -/
def heldBack (cut retainFrom : Seconds) (w : Word) : Bool :=
  decide (retainFrom ≤ w.start) && decide (cut - TAIL_GUARD_S < w.stop)

theorem heldBack_iff {cut retainFrom : Seconds} {w : Word} :
    heldBack cut retainFrom w = true ↔ retainFrom ≤ w.start ∧ cut - TAIL_GUARD_S < w.stop := by
  rw [heldBack, Bool.and_eq_true, decide_eq_true_iff, decide_eq_true_iff]

/-- The number of leading words a boundary commits: the walk stops at the first one held back. -/
def boundaryCount (current : Hypothesis) (cut retainFrom : Seconds) : ℕ :=
  (current.words.takeWhile (fun w => !heldBack cut retainFrom w)).length

/-- `boundary_commit`. -/
def boundaryCommit (current : Hypothesis) (cut retainFrom : Seconds) : Option CommitDecision :=
  let words := current.words.take (boundaryCount current cut retainFrom)
  match words.getLast? with
  | none => none
  | some w => some ⟨w.stop, words⟩

theorem boundaryCount_le (current : Hypothesis) (cut retainFrom : Seconds) :
    boundaryCount current cut retainFrom ≤ current.words.length :=
  (List.takeWhile_prefix _).length_le

/-- The first word past the boundary's count is held back. -/
theorem heldBack_boundaryCount {current : Hypothesis} {cut retainFrom : Seconds} {w : Word}
    (h : current.words[boundaryCount current cut retainFrom]? = some w) :
    heldBack cut retainFrom w = true := by
  simpa using Segment.not_of_getElem?_length_takeWhile h

/-- The words a boundary commits are not held back. -/
theorem not_heldBack_of_lt_boundaryCount {current : Hypothesis} {cut retainFrom : Seconds}
    {i : ℕ} {w : Word} (hi : i < boundaryCount current cut retainFrom)
    (hw : current.words[i]? = some w) : heldBack cut retainFrom w = false := by
  simpa using Segment.of_lt_length_takeWhile hi hw

/-- A boundary whose first word is held back decides nothing. -/
theorem boundaryCommit_eq_none {current : Hypothesis} {cut retainFrom : Seconds}
    (h : ∀ w ∈ current.words.head?, heldBack cut retainFrom w = true) :
    boundaryCommit current cut retainFrom = none := by
  have hcount : boundaryCount current cut retainFrom = 0 := by
    unfold boundaryCount
    cases hwords : current.words with
    | nil => rfl
    | cons w ws =>
      rw [hwords] at h
      rw [List.takeWhile_cons_of_neg (by rw [h w rfl]; decide), List.length_nil]
  simp only [boundaryCommit, hcount, List.take_zero, List.getLast?_nil]

/-! ## SilenceCut -/

/-- A cut the chunking policy decided on; `silent` says the audio at it was verified quiet. -/
structure Cut where
  at_ : Seconds
  forced : Bool
  silent : Bool
deriving DecidableEq

variable {K : Type*} [Field K] [LinearOrder K]

structure SilenceCut (K : Type*) where
  arm : Seconds
  silenceCut : Seconds
  forceCut : Seconds
  vad : AdaptiveVad K
  highpass : HighPass K
  silenceRun : Seconds
  runPeak : K
  heardSinceCut : Bool
  scanned : ℕ

namespace SilenceCut

/-- `SilenceCut(arm_seconds, silence_cut_seconds, force_cut_seconds)`. -/
def new (arm : Seconds := 15) (silenceCut : Seconds := 1 / 2) (forceCut : Seconds := 60) :
    SilenceCut K where
  arm := arm
  silenceCut := silenceCut
  forceCut := forceCut
  vad := .new
  highpass := .new
  silenceRun := 0
  runPeak := 0
  heardSinceCut := false
  scanned := 0

/-- `_CUT_QUIET_RATIO`. -/
def cutQuietRatio : K := 25 / 100

/-- `mark_cut`: the window was cut at `at_`; the silence run restarts there. -/
def markCut (s : SilenceCut K) (at_ : Seconds) : SilenceCut K :=
  { s with
    silenceRun := 0
    runPeak := 0
    heardSinceCut := false
    scanned := (toSamples at_).toNat }

omit [LinearOrder K] in
@[simp] theorem markCut_scanned (s : SilenceCut K) (n : ℕ) :
    (s.markCut (secondsAt n)).scanned = n := by
  show (toSamples (secondsAt n)).toNat = n
  rw [toSamples_secondsAt, Int.toNat_natCast]

/-- `unscanned_offset`: samples into the window where the next `observe` starts reading. -/
def unscannedOffset (s : SilenceCut K) (windowStart : Seconds) : ℕ :=
  let start := (toSamples windowStart).toNat
  max s.scanned start - start

/-- The body of `observe`'s `while` loop: one frame, whose first sample lies `off` samples into the
window that starts at sample `start`. Returns the frame's activity and the cut it asks for. -/
def scanFrame (num : Numerics K) (s : SilenceCut K) (start off : ℕ) (frame : List K) :
    Activity × Option Cut × SilenceCut K :=
  let (filtered, highpass) := s.highpass.call num frame
  let rms := frameRms num filtered
  let (activity, vad) := s.vad.update rms
  let off := off + FRAME_LEN
  let s := { s with
    highpass := highpass
    vad := vad
    scanned := start + off
    heardSinceCut := s.heardSinceCut || decide (activity = .active) }
  if (off : ℤ) < toSamples s.arm then (activity, none, s)
  else match activity with
    | .silent =>
      let s := { s with
        silenceRun := s.silenceRun + SC_FRAME_S
        runPeak := max s.runPeak rms }
      if s.silenceCut ≤ s.silenceRun then
        let quiet := decide (s.runPeak ≤ s.vad.speechLevel * cutQuietRatio)
        let at_ := secondsAt (start + off)
        (activity, some ⟨at_, false, quiet⟩, s.markCut at_)
      else (activity, none, s)
    | .active => (activity, none, { s with silenceRun := 0, runPeak := 0 })
    | .notStarted => (activity, none, s)

/-- The `while` loop over `n` whole frames of `samples`, which begin `off` samples into the window;
it stops at the first frame that asks for a cut. Also returns the activities it judged. -/
def scan (num : Numerics K) (start : ℕ) :
    (n off : ℕ) → List K → SilenceCut K → Option Cut × SilenceCut K × List Activity
  | 0, _, _, s => (none, s, [])
  | n + 1, off, samples, s =>
    match s.scanFrame num start off (samples.take FRAME_LEN) with
    | (activity, some cut, s) => (some cut, s, [activity])
    | (activity, none, s) =>
      let (cut, s, rest) := scan num start n (off + FRAME_LEN) (samples.drop FRAME_LEN) s
      (cut, s, activity :: rest)

/-- `observe`: a `Cut` if the window should be committed now. `samples` are the window from
`offset` samples in, which must not exceed `unscannedOffset`. -/
def observe (num : Numerics K) (s : SilenceCut K) (samples : List K)
    (windowStart windowEnd : Seconds)
    (offset : ℕ := 0) : Except String (Option Cut × SilenceCut K × List Activity) :=
  let start := (toSamples windowStart).toNat
  let stop := (toSamples windowEnd).toNat
  if toSamples s.forceCut ≤ (stop : ℤ) - start then
    .ok (some ⟨windowEnd, true, false⟩, s.markCut windowEnd, [])
  else
    let off := s.unscannedOffset windowStart
    if off < offset then .error "observe needs the samples from unscanned_offset() onwards"
    else
      .ok (scan num start ((offset + samples.length - off) / FRAME_LEN) off
        (samples.drop (off - offset)) s)

/-! ### What a scan reports

The scan position, the memory of voice and the cut a scan asks for, in terms of the frames it
judged. -/

theorem scanFrame_none {num : Numerics K} {s s' : SilenceCut K} {start off : ℕ} {frame : List K}
    {activity : Activity} (h : s.scanFrame num start off frame = (activity, none, s')) :
    s'.scanned = start + (off + FRAME_LEN) ∧
      s'.heardSinceCut = (s.heardSinceCut || decide (activity = .active)) := by
  simp only [scanFrame] at h
  generalize s.vad.update _ = judged at h
  obtain ⟨judgement, vad⟩ := judged
  by_cases harm : ((off + FRAME_LEN : ℕ) : ℤ) < toSamples s.arm
  · rw [if_pos harm] at h
    obtain ⟨rfl, -, rfl⟩ := h
    exact ⟨rfl, rfl⟩
  · rw [if_neg harm] at h
    cases judgement with
    | silent =>
      dsimp only at h
      split_ifs at h
      · simp at h
      · obtain ⟨rfl, -, rfl⟩ := h
        exact ⟨rfl, rfl⟩
    | active =>
      obtain ⟨rfl, -, rfl⟩ := h
      exact ⟨rfl, rfl⟩
    | notStarted =>
      obtain ⟨rfl, -, rfl⟩ := h
      exact ⟨rfl, rfl⟩

theorem scanFrame_some {num : Numerics K} {s s' : SilenceCut K} {start off : ℕ} {frame : List K}
    {activity : Activity} {cut : Cut}
    (h : s.scanFrame num start off frame = (activity, some cut, s')) :
    activity = .silent ∧ cut.at_ = secondsAt (start + (off + FRAME_LEN)) ∧ cut.forced = false ∧
      s'.scanned = start + (off + FRAME_LEN) ∧ s'.heardSinceCut = false := by
  simp only [scanFrame] at h
  generalize s.vad.update _ = judged at h
  obtain ⟨judgement, vad⟩ := judged
  by_cases harm : ((off + FRAME_LEN : ℕ) : ℤ) < toSamples s.arm
  · rw [if_pos harm] at h
    simp at h
  · rw [if_neg harm] at h
    cases judgement with
    | silent =>
      dsimp only at h
      split_ifs at h
      · simp only [Prod.mk.injEq, Option.some.injEq] at h
        obtain ⟨rfl, rfl, rfl⟩ := h
        exact ⟨rfl, rfl, rfl, markCut_scanned _ _, rfl⟩
      · simp at h
    | active => simp at h
    | notStarted => simp at h

/-- A scan that asks for no cut has judged every frame, and remembers voice if one was active. -/
theorem scan_none {num : Numerics K} {start n off : ℕ} {samples : List K} {s s' : SilenceCut K}
    {activities : List Activity} (h : scan num start n off samples s = (none, s', activities)) :
    activities.length = n ∧ (n = 0 → s' = s) ∧
      (n ≠ 0 → s'.scanned = start + (off + n * FRAME_LEN)) ∧
      s'.heardSinceCut = (s.heardSinceCut || decide (.active ∈ activities)) := by
  induction n generalizing off samples s activities with
  | zero =>
    simp only [scan, Prod.mk.injEq, true_and] at h
    obtain ⟨rfl, rfl⟩ := h
    simp
  | succ n ih =>
    unfold scan at h
    split at h
    · simp at h
    · next activity t hframe =>
      obtain ⟨hscanned, hheard⟩ := scanFrame_none hframe
      generalize hrest : scan num start n (off + FRAME_LEN) (samples.drop FRAME_LEN) t = rest at h
      obtain ⟨cut, t', acts⟩ := rest
      simp only [Prod.mk.injEq] at h
      obtain ⟨rfl, rfl, rfl⟩ := h
      obtain ⟨hlen, hzero, hpos, hh⟩ := ih hrest
      refine ⟨by simp [hlen], by simp, ?_, ?_⟩
      · intro _
        rcases Nat.eq_zero_or_pos n with rfl | hn
        · rw [hzero rfl, hscanned]
          omega
        · rw [hpos (by omega), Nat.succ_mul]
          omega
      · rw [hh, hheard, Bool.or_assoc, ← Bool.decide_or]
        simp only [List.mem_cons, eq_comm]

/-- A cut a scan asks for is at the end of the last frame it judged, which was silent. -/
theorem scan_some {num : Numerics K} {start n off : ℕ} {samples : List K} {s s' : SilenceCut K}
    {activities : List Activity} {cut : Cut}
    (h : scan num start n off samples s = (some cut, s', activities)) :
    ∃ i < n, activities.length = i + 1 ∧
      cut.at_ = secondsAt (start + (off + (i + 1) * FRAME_LEN)) ∧ cut.forced = false ∧
      s'.scanned = start + (off + (i + 1) * FRAME_LEN) ∧ s'.heardSinceCut = false := by
  induction n generalizing off samples s activities with
  | zero => simp [scan] at h
  | succ n ih =>
    unfold scan at h
    split at h
    · next activity c t hframe =>
      obtain ⟨-, hat, hforced, hscanned, hheard⟩ := scanFrame_some hframe
      simp only [Prod.mk.injEq, Option.some.injEq] at h
      obtain ⟨rfl, rfl, rfl⟩ := h
      exact ⟨0, by omega, rfl, by simpa using hat, hforced, by simpa using hscanned, hheard⟩
    · next activity t hframe =>
      generalize hrest : scan num start n (off + FRAME_LEN) (samples.drop FRAME_LEN) t = rest at h
      obtain ⟨c, t', acts⟩ := rest
      simp only [Prod.mk.injEq] at h
      obtain ⟨rfl, rfl, rfl⟩ := h
      obtain ⟨i, hi, hlen, hat, hforced, hscanned, hheard⟩ := ih hrest
      have hoff : off + FRAME_LEN + (i + 1) * FRAME_LEN = off + (i + 1 + 1) * FRAME_LEN := by ring
      rw [hoff] at hat hscanned
      exact ⟨i + 1, by omega, by simp [hlen], hat, hforced, hscanned, hheard⟩

/-- Fed from `unscannedOffset` on, as the loop does, `observe` never raises: it forces a cut of a
full window and scans the samples otherwise. -/
theorem observe_unscanned (num : Numerics K) (s : SilenceCut K) (samples : List K)
    (start stop : ℕ) :
    s.observe num samples (secondsAt start) (secondsAt stop) (s.unscannedOffset (secondsAt start))
      = .ok (if toSamples s.forceCut ≤ (stop : ℤ) - start then
          (some ⟨secondsAt stop, true, false⟩, s.markCut (secondsAt stop), [])
        else scan num start (samples.length / FRAME_LEN) (s.unscannedOffset (secondsAt start))
          samples s) := by
  simp only [observe, toSamples_secondsAt, Int.toNat_natCast, lt_irrefl, if_false,
    Nat.add_sub_cancel_left, Nat.sub_self, List.drop_zero]
  split_ifs <;> rfl

end SilenceCut

/-- The strategies a session runs with. -/
inductive Strategy (K : Type*) where
  | localAgreement
  | silenceCut (s : SilenceCut K)

end Myna
