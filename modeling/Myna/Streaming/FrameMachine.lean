import Myna.Streaming.LoopPass
import Myna.Streaming.LoopTranscript

/-!
# Myna — pause cuts do not depend on chunking

A chunked session is compared with a machine that has the whole stream in front of it and judges
one frame a step (`frameStep`), taking a cut as the loop takes it. Where no cut is forced, every
state of the session is a state of that machine, the one after as many frames as the session has
scanned (`Follows`), whatever the chunks are. Two sessions over the same stream that have both
scanned every whole frame are then the same state of one machine.

* **`SilenceCut.observe_suffix`** — `observe` on the unscanned suffix is `observe` on the window;
* **`frameRun_scan`** — a scan is that many frame steps, up to the cut it asks for;
* **`session_follows`** — the simulation;
* **`cuts_independent_of_chunking`** — the two sessions.
-/

namespace Myna

variable {K : Type*} [Field K] [LinearOrder K]

/-- **Feeding only the unscanned suffix is feeding the whole window**: `observe` skips what it has
scanned itself. -/
theorem SilenceCut.observe_suffix (num : Numerics K) (s : SilenceCut K) (samples : List K)
    (windowStart windowEnd : Seconds) {offset : ℕ} (h : offset ≤ s.unscannedOffset windowStart) :
    s.observe num (samples.drop offset) windowStart windowEnd offset
      = s.observe num samples windowStart windowEnd 0 := by
  have hn : offset + (samples.drop offset).length - s.unscannedOffset windowStart
      = 0 + samples.length - s.unscannedOffset windowStart := by
    rw [List.length_drop]
    omega
  have hdrop : (samples.drop offset).drop (s.unscannedOffset windowStart - offset)
      = samples.drop (s.unscannedOffset windowStart - 0) := by
    rw [List.drop_drop, Nat.add_sub_cancel' h, Nat.sub_zero]
  simp only [observe, hn, hdrop, if_neg (not_lt.mpr h), Nat.not_lt_zero, if_false]

namespace Loop

/-! ## The frame machine -/

/-- The `n`-th sample on, one frame. -/
def frameFrom (samples : List K) (n : ℕ) : List K := (samples.drop n).take FRAME_LEN

/-- The state once a look at it has judged `activities` and asked for `asked`: the cut is taken
where the loop takes it. -/
def answered (env : Env K) (f : LoopState K) (sc : SilenceCut K) (activities : List Activity) :
    Option Cut → LoopState K
  | none => judged f sc activities []
  | some cut =>
    if takesCut f cut then takeCut env (judged f sc activities [.cut cut true]) cut
    else judged f sc activities [.cut cut false]

/-- One frame of the stream: judge it, and take the cut it asks for where the loop would. -/
def frameStep (env : Env K) (samples : List K) (f : LoopState K) : LoopState K :=
  match f.strategy with
  | .localAgreement => f
  | .silenceCut sc =>
    let (activity, asked, sc) := sc.scanFrame env.numerics f.window.retainedStart
      (sc.scanned - f.window.retainedStart) (frameFrom samples sc.scanned)
    answered env f sc [activity] asked

/-- The machine after `k` frames. -/
def frameRun (env : Env K) (samples : List K) (f : LoopState K) (k : ℕ) : LoopState K :=
  (frameStep env samples)^[k] f

theorem frameRun_add (env : Env K) (samples : List K) (f : LoopState K) (m n : ℕ) :
    frameRun env samples f (m + n) = frameRun env samples (frameRun env samples f m) n := by
  rw [frameRun, Nat.add_comm, Function.iterate_add_apply]
  rfl

omit [Field K] [LinearOrder K] in
/-- What is judged frame by frame is judged in one go. -/
theorem judged_judged (f : LoopState K) (sc sc' : SilenceCut K) (activity : Activity)
    (activities : List Activity) (asked : List VadEvent) :
    judged (judged f sc [activity] []) sc' activities asked
      = judged f sc' (activity :: activities) asked := by
  simp [judged]

/-- **A scan is frame steps.** Over samples of the stream from the scan position on, a scan that
asks for no cut is as many frame steps as it has frames, and one that asks for a cut is the frame
steps up to it. Induction on the frames. -/
theorem frameRun_scan (env : Env K) (samples : List K) {n off m : ℕ} {f : LoopState K}
    {sc sc' : SilenceCut K} {asked : Option Cut} {activities : List Activity}
    (hs : f.strategy = .silenceCut sc) (hoff : sc.scanned = f.window.retainedStart + off)
    (hn : n * FRAME_LEN ≤ m)
    (h : SilenceCut.scan env.numerics f.window.retainedStart n off
      ((samples.drop sc.scanned).take m) sc = (asked, sc', activities)) :
    frameRun env samples f activities.length = answered env f sc' activities asked := by
  induction n generalizing off m f sc activities with
  | zero =>
    simp only [SilenceCut.scan, Prod.mk.injEq] at h
    obtain ⟨rfl, rfl, rfl⟩ := h
    simp [frameRun, answered, judged, ← hs]
  | succ n ih =>
    have hframe : ((samples.drop sc.scanned).take m).take FRAME_LEN
        = frameFrom samples sc.scanned := by
      rw [frameFrom, List.take_take, min_eq_left (by rw [Nat.succ_mul] at hn; omega)]
    have hstep : ∀ k, frameRun env samples f (k + 1)
        = frameRun env samples (frameStep env samples f) k := fun k => rfl
    unfold SilenceCut.scan at h
    rw [hframe] at h
    have hoff' : sc.scanned - f.window.retainedStart = off := by omega
    split at h
    · next activity cut t hscan =>
      simp only [Prod.mk.injEq] at h
      obtain ⟨rfl, rfl, rfl⟩ := h
      rw [List.length_singleton, hstep]
      simp only [frameRun, Function.iterate_zero, id_eq, frameStep, hs, hoff', hscan]
    · next activity t hscan =>
      obtain ⟨hscanned, -⟩ := SilenceCut.scanFrame_none hscan
      generalize hrest : SilenceCut.scan env.numerics f.window.retainedStart n (off + FRAME_LEN)
        (((samples.drop sc.scanned).take m).drop FRAME_LEN) t = rest at h
      obtain ⟨c, t', acts⟩ := rest
      simp only [Prod.mk.injEq] at h
      obtain ⟨rfl, rfl, rfl⟩ := h
      have hnext : frameStep env samples f = judged f t [activity] [] := by
        simp only [frameStep, hs, hoff', hscan, answered]
      have hdrop : ((samples.drop sc.scanned).take m).drop FRAME_LEN
          = (samples.drop t.scanned).take (m - FRAME_LEN) := by
        rw [List.drop_take, List.drop_drop, hscanned, hoff, Nat.add_assoc]
      rw [hdrop] at hrest
      have hrun := ih (f := judged f t [activity] []) rfl hscanned
        (by rw [Nat.succ_mul] at hn; omega) hrest
      rw [List.length_cons, hstep, hnext, hrun]
      cases c with
      | none => exact judged_judged _ _ _ _ _ _
      | some cut =>
        simp only [answered, judged_judged]
        rfl

/-! ## States that commit alike -/

/-- What decides the cuts and the commits is the same in both states. -/
structure Views (s f : LoopState K) : Prop where
  strategy : s.strategy = f.strategy
  transcript : s.transcript = f.transcript
  vadLog : s.vadLog = f.vadLog
  retainedStart : s.window.retainedStart = f.window.retainedStart
  processedThrough : s.window.processedThrough = f.window.processedThrough
  overlap : s.window.overlap = f.window.overlap

section

omit [Field K] [LinearOrder K]

theorem Views.judged {s f : LoopState K} (h : Views s f) (sc : SilenceCut K)
    (activities : List Activity) (asked : List VadEvent) :
    Views (Loop.judged s sc activities asked) (Loop.judged f sc activities asked) where
  strategy := rfl
  transcript := h.transcript
  vadLog := by simp [Loop.judged, h.vadLog]
  retainedStart := h.retainedStart
  processedThrough := h.processedThrough
  overlap := h.overlap

theorem Views.takesCut_eq {s f : LoopState K} (h : Views s f) (cut : Cut) :
    takesCut s cut = takesCut f cut := by
  unfold takesCut RollingWindow.start
  rw [h.retainedStart, h.processedThrough]

theorem Views.commit_transcript {s f : LoopState K} (h : Views s f) (env : Env K)
    (words : List Word) :
    (commit env s words).2.transcript = (commit env f words).2.transcript := by
  have hwords : freshWords env s words = freshWords env f words := by
    simp only [freshWords, h.transcript, h.retainedStart, h.processedThrough]
  have htext : freshText env s words = freshText env f words := by
    simp only [freshText, hwords]
  simp only [commit, htext, hwords]
  split_ifs
  · exact h.transcript
  · simp only [emitCommitted, h.transcript]

theorem Views.commitCut_transcript {s f : LoopState K} (h : Views s f) (env : Env K)
    (hyp : Hypothesis) (cut : ℕ) (forced keepOverlap : Bool) :
    (commitCut env s hyp cut forced keepOverlap).transcript
      = (commitCut env f hyp cut forced keepOverlap).transcript := by
  cases keepOverlap with
  | true =>
    simp only [commitCut, if_true, h.overlap, h.retainedStart]
    generalize boundaryCommit hyp _ _ = decision
    cases decision with
    | none => exact h.transcript
    | some d => simp only [commitDecision, coverTo, h.commit_transcript]
  | false =>
    simp only [commitCut, Bool.false_eq_true, if_false, coverTo, h.commit_transcript]

/-- **Both states take a cut alike**: they decode the same samples and retire the same audio. -/
theorem Views.takeCut {env : Env K} {s f : LoopState K} {stream : Bytes} (h : Views s f)
    (hpure : env.PureDecoder)
    (hs : s.window.Tracks stream) (hf : f.window.Tracks stream) {cut : Cut} {p : ℕ}
    (hat : cut.at_ = secondsAt p) (hps : p ≤ s.window.received) (hpf : p ≤ f.window.received) :
    Views (Loop.takeCut env s cut) (Loop.takeCut env f cut) := by
  obtain ⟨trs, ds, hcs, -⟩ := takeCut_frame env s cut hat
  obtain ⟨trf, df, hcf, -⟩ := takeCut_frame env f cut hat
  have hsamples : s.window.samples none (some (p : ℤ)) = f.window.samples none (some (p : ℤ)) := by
    rw [RollingWindow.samples_stop, RollingWindow.samples_stop, hs.samples_eq le_rfl hps,
      hf.samples_eq le_rfl hpf, h.retainedStart]
  have hpt : (s.window.retire p (keepsOverlap env cut)).processedThrough
      = (f.window.retire p (keepsOverlap env cut)).processedThrough := by
    rw [RollingWindow.retire_processedThrough, RollingWindow.retire_processedThrough,
      h.processedThrough]
    omega
  have htr : (Loop.takeCut env s cut).transcript = (Loop.takeCut env f cut).transcript := by
    have hviews : Views (timedDecode env s .commit (s.window.samples none (some (p : ℤ)))
        s.window.start).2 (timedDecode env f .commit (f.window.samples none (some (p : ℤ)))
        f.window.start).2 :=
      ⟨h.strategy, h.transcript, h.vadLog, h.retainedStart, h.processedThrough, h.overlap⟩
    have hhyp : (timedDecode env s .commit (s.window.samples none (some (p : ℤ)))
        s.window.start).1 = (timedDecode env f .commit (f.window.samples none (some (p : ℤ)))
        f.window.start).1 := by
      simp only [timedDecode, hsamples, RollingWindow.start, h.retainedStart]
      exact hpure _ _ _ _
    have hcommit := hviews.commitCut_transcript env (timedDecode env s .commit
      (s.window.samples none (some (p : ℤ))) s.window.start).1 p cut.forced (keepsOverlap env cut)
    simp only [Loop.takeCut, cutRegion, hat, toSamples_secondsAt, Int.toNat_natCast]
    rw [hcommit, hhyp]
  rw [hcs, hcf] at htr
  rw [hcs, hcf]
  refine ⟨h.strategy, htr, h.vadLog, ?_, hpt, h.overlap⟩
  show (s.window.retire p _).retainedStart = (f.window.retire p _).retainedStart
  rw [RollingWindow.retire_retainedStart, RollingWindow.retire_retainedStart, hpt, h.overlap,
    h.retainedStart]

end

/-! ## The simulation -/

/-- The machine before the first frame: the whole stream is in its window. -/
def frameInit (env : Env K) (sc : SilenceCut K) (stream : Bytes) : LoopState K :=
  { LoopState.init env (.silenceCut sc) [] with
    window := { RollingWindow.new env.config.window with
      cap := stream.length
      buf := stream.take (2 * (stream.length / 2))
      received := stream.length / 2 } }

/-- No cut was forced, neither by the strategy nor by a full window. -/
def NoForcedCut (log : List VadEvent) : Prop :=
  ∀ cut taken, .cut cut taken ∈ log → cut.forced = false

/-- The session state `s` is the frame machine after as many frames as `s` has scanned. -/
structure Follows (env : Env K) (sc₀ : SilenceCut K) (stream : Bytes) (s : LoopState K)
    (sc : SilenceCut K) (k : ℕ) : Prop where
  strategy : s.strategy = .silenceCut sc
  views : Views s (frameRun env (levels stream) (frameInit env sc₀ stream) k)
  tracks : (frameRun env (levels stream) (frameInit env sc₀ stream) k).window.Tracks stream
  received : (frameRun env (levels stream) (frameInit env sc₀ stream) k).window.received
    = stream.length / 2
  scanned : sc.scanned = k * FRAME_LEN
  processedThrough_le : s.window.processedThrough ≤ sc.scanned
  scanned_le : sc.scanned ≤ s.window.received

omit [Field K] [LinearOrder K] in
theorem frameInit_tracks (env : Env K) (sc : SilenceCut K) (stream : Bytes) :
    (frameInit env sc stream).window.Tracks stream where
  retainedStart_le := le_rfl
  processedThrough_le := Nat.zero_le _
  received_le := Nat.mul_div_le _ _
  buf_eq := rfl
  retained_le := by
    show stream.length / 2 - 0 ≤ stream.length
    omega

theorem init_follows (env : Env K) (sc : SilenceCut K) (audio : List Bytes)
    (h0 : sc.scanned = 0) :
    Follows env sc audio.flatten (LoopState.init env (.silenceCut sc) audio) sc 0 where
  strategy := rfl
  views := ⟨rfl, rfl, rfl, rfl, rfl, rfl⟩
  tracks := frameInit_tracks env sc _
  received := rfl
  scanned := by rw [h0, Nat.zero_mul]
  processedThrough_le := Nat.zero_le _
  scanned_le := by
    rw [h0]
    exact Nat.zero_le _

/-- Steps that scan nothing and cut nothing stay with the same state of the machine. -/
theorem Follows.of_eq {env : Env K} {sc₀ sc : SilenceCut K} {stream : Bytes} {s t : LoopState K}
    {k : ℕ} (h : Follows env sc₀ stream s sc k) (hs : t.strategy = s.strategy)
    (htr : t.transcript = s.transcript) (hlog : t.vadLog = s.vadLog)
    (hrs : t.window.retainedStart = s.window.retainedStart)
    (hpt : t.window.processedThrough = s.window.processedThrough)
    (hov : t.window.overlap = s.window.overlap)
    (hrec : s.window.received ≤ t.window.received) : Follows env sc₀ stream t sc k where
  strategy := hs.trans h.strategy
  views := ⟨hs.trans h.views.strategy, htr.trans h.views.transcript, hlog.trans h.views.vadLog,
    hrs.trans h.views.retainedStart, hpt.trans h.views.processedThrough,
    hov.trans h.views.overlap⟩
  tracks := h.tracks
  received := h.received
  scanned := h.scanned
  processedThrough_le := by
    rw [hpt]
    exact h.processedThrough_le
  scanned_le := h.scanned_le.trans hrec

/-- A look that leaves no forced cut in the log has not reached the force length. -/
theorem not_forced_of_observe {env : Env K} {s : LoopState K} {sc : SilenceCut K}
    (hclean : NoForcedCut (observeStep env s sc).vadLog) :
    ¬ toSamples sc.forceCut ≤ (s.window.received : ℤ) - s.window.retainedStart := by
  intro hforce
  have hj : judge env s sc = (some ⟨s.window.ends, true, false⟩, sc.markCut s.window.ends, []) := by
    rw [judge, if_pos hforce]
  rw [observeStep_some hj] at hclean
  split_ifs at hclean
  · obtain ⟨tr, d, htake, -⟩ := takeCut_frame env (judged s (sc.markCut s.window.ends) []
      [.cut ⟨s.window.ends, true, false⟩ true]) ⟨s.window.ends, true, false⟩ rfl
    rw [htake] at hclean
    have hforced := hclean ⟨s.window.ends, true, false⟩ true (by simp [judged])
    simp at hforced
  · have hforced := hclean ⟨s.window.ends, true, false⟩ false (by simp [judged])
    simp at hforced

/-- What the strategy makes of the window, as frame steps of the machine. -/
theorem Follows.judge {env : Env K} {sc₀ sc sc' : SilenceCut K} {stream : Bytes}
    {s : LoopState K} {k : ℕ} (h : Follows env sc₀ stream s sc k) (hb : Bounded env stream s)
    (hforce : ¬ toSamples sc.forceCut ≤ (s.window.received : ℤ) - s.window.retainedStart)
    {asked : Option Cut} {activities : List Activity}
    (hj : Loop.judge env s sc = (asked, sc', activities)) :
    frameRun env (levels stream) (frameInit env sc₀ stream) (k + activities.length)
      = answered env (frameRun env (levels stream) (frameInit env sc₀ stream) k) sc' activities
          asked ∧
      sc'.scanned = (k + activities.length) * FRAME_LEN ∧ sc'.scanned ≤ s.window.received ∧
      sc.scanned ≤ sc'.scanned ∧ ∀ cut ∈ asked, cut.at_ = secondsAt sc'.scanned := by
  have hrs : s.window.retainedStart ≤ sc.scanned :=
    hb.tracks.retainedStart_le.trans h.processedThrough_le
  have hle := h.scanned_le
  have hk := h.scanned
  rw [judge_eq_judgeStream env hb.tracks hrs, judgeStream, if_neg hforce] at hj
  have hframes : (s.window.received - sc.scanned) / FRAME_LEN * FRAME_LEN
      ≤ s.window.received - sc.scanned := Nat.div_mul_le_self _ _
  constructor
  · have hj' := hj
    rw [h.views.retainedStart] at hj'
    have hoff' : sc.scanned
        = (frameRun env (levels stream) (frameInit env sc₀ stream) k).window.retainedStart
          + (sc.scanned - (frameRun env (levels stream)
            (frameInit env sc₀ stream) k).window.retainedStart) := by
      rw [← h.views.retainedStart]
      omega
    rw [frameRun_add]
    exact frameRun_scan env (levels stream)
      (h.views.strategy.symm.trans h.strategy) hoff' hframes hj'
  · cases asked with
    | none =>
      obtain ⟨hacts, hzero, hpos, -⟩ := SilenceCut.scan_none hj
      have hscanned : sc'.scanned
          = sc.scanned + (s.window.received - sc.scanned) / FRAME_LEN * FRAME_LEN := by
        by_cases hn : (s.window.received - sc.scanned) / FRAME_LEN = 0
        · rw [hzero hn, hn]
          omega
        · rw [hpos hn]
          omega
      rw [hacts, Nat.add_mul, ← hk, hscanned]
      exact ⟨rfl, by omega, Nat.le_add_right _ _, by simp⟩
    | some cut =>
      obtain ⟨i, hi, hacts, hat, -, hscanned, -⟩ := SilenceCut.scan_some hj
      have hframe : (i + 1) * FRAME_LEN
          ≤ (s.window.received - sc.scanned) / FRAME_LEN * FRAME_LEN :=
        Nat.mul_le_mul_right _ hi
      have hscanned' : sc'.scanned = sc.scanned + (i + 1) * FRAME_LEN := by
        rw [hscanned]
        omega
      rw [← hscanned] at hat
      rw [hacts, Nat.add_mul, ← hk, hscanned']
      refine ⟨rfl, by omega, Nat.le_add_right _ _, ?_⟩
      rintro _ ⟨⟩
      rw [hat, hscanned']

/-- **A look at the window is frame steps**: the state after it is the machine after the frames it
scanned. -/
theorem Follows.observe {env : Env K} {sc₀ sc : SilenceCut K} {stream : Bytes} {s : LoopState K}
    {k : ℕ} (h : Follows env sc₀ stream s sc k) (hpure : env.PureDecoder)
    (hb : Bounded env stream s) (hclean : NoForcedCut (observeStep env s sc).vadLog) :
    ∃ sc' k', Follows env sc₀ stream (observeStep env s sc) sc' k' := by
  rcases hj : Loop.judge env s sc with ⟨asked, sc', acts⟩
  obtain ⟨hrun, hscanned, hle, hmono, hat⟩ := h.judge hb (not_forced_of_observe hclean) hj
  have hpt := h.processedThrough_le.trans hmono
  refine ⟨sc', k + acts.length, ?_⟩
  cases asked with
  | none =>
    rw [observeStep_none hj]
    have hviews := h.views.judged sc' acts []
    rw [answered] at hrun
    rw [← hrun] at hviews
    exact ⟨rfl, ⟨hviews.strategy, hviews.transcript, hviews.vadLog, hviews.retainedStart,
      hviews.processedThrough, hviews.overlap⟩, by rw [hrun]; exact h.tracks,
      by rw [hrun]; exact h.received, hscanned, hpt, hle⟩
  | some cut =>
    rw [answered, ← h.views.takesCut_eq] at hrun
    rw [observeStep_some hj]
    by_cases htakes : takesCut s cut = true
    · rw [if_pos htakes] at hrun ⊢
      have hreceived : sc'.scanned ≤
          (frameRun env (levels stream) (frameInit env sc₀ stream) k).window.received := by
        have hrec := hb.tracks.received_le
        rw [h.received]
        omega
      have hviews := (h.views.judged sc' acts [.cut cut true]).takeCut hpure hb.tracks h.tracks
        (hat cut rfl) hle hreceived
      obtain ⟨tr, d, htake, -⟩ := takeCut_frame env (judged s sc' acts [.cut cut true]) cut
        (hat cut rfl)
      obtain ⟨trf, df, htakef, -⟩ := takeCut_frame env
        (judged (frameRun env (levels stream) (frameInit env sc₀ stream) k) sc' acts
          [.cut cut true]) cut (hat cut rfl)
      rw [← hrun] at hviews
      refine ⟨?_, hviews, ?_, ?_, hscanned, ?_, ?_⟩
      · rw [htake]
        rfl
      · rw [hrun, htakef]
        exact h.tracks.retire _ _
      · rw [hrun, htakef]
        exact h.received
      · -- the cut is where the scan stopped
        have hlt := processedThrough_lt_of_takesCut (hat cut rfl) htakes
        rw [htake]
        exact (RollingWindow.retire_processedThrough_eq hlt.le hle _).le
      · rw [htake]
        exact hle
    · rw [if_neg htakes] at hrun ⊢
      have hviews := h.views.judged sc' acts [.cut cut false]
      rw [← hrun] at hviews
      exact ⟨rfl, ⟨hviews.strategy, hviews.transcript, hviews.vadLog, hviews.retainedStart,
        hviews.processedThrough, hviews.overlap⟩, by rw [hrun]; exact h.tracks,
        by rw [hrun]; exact h.received, hscanned, hpt, hle⟩

/-- **The simulation.** As long as no cut was forced, every state of a chunked session before its
end is the machine after as many frames as the session has scanned. -/
theorem session_follows {env : Env K} (hpure : env.PureDecoder) {sc₀ : SilenceCut K}
    (h0 : sc₀.scanned = 0) (audio : List Bytes) (n : ℕ)
    (hdone : (session env (.silenceCut sc₀) audio n).pc ≠ .done)
    (hclean : NoForcedCut (session env (.silenceCut sc₀) audio n).vadLog) :
    ∃ sc k, Follows env sc₀ audio.flatten (session env (.silenceCut sc₀) audio n) sc k := by
  induction n with
  | zero => exact ⟨sc₀, 0, init_follows env sc₀ audio h0⟩
  | succ n ih =>
    have hb := session_inv env (.silenceCut sc₀) audio n
    set s := session env (.silenceCut sc₀) audio n with hs
    rw [session_succ, ← hs] at hdone hclean ⊢
    -- the log only grows, so it was clean before the step
    have hbefore : s.pc ≠ .done ∧ NoForcedCut s.vadLog := by
      constructor
      · intro hpc
        rw [step_done env hpc] at hdone
        exact hdone hpc
      · intro cut taken hmem
        exact hclean cut taken ((step_vadLog env s).subset hmem)
    obtain ⟨sc, k, h⟩ := ih hbefore.1 hbefore.2
    cases hpc : s.pc with
    | chunk =>
      refine ⟨sc, k, h.of_eq ?_ ?_ ?_ ?_ ?_ ?_ ?_⟩ <;>
        cases haudio : s.audio <;> simp [step, hpc, haudio]
    | fill =>
      rcases step_fill env hpc with ⟨-, hstep⟩ | ⟨-, hstep⟩
      · rw [hstep]
        exact ⟨sc, k, h.of_eq rfl rfl rfl rfl rfl rfl le_rfl⟩
      · rw [hstep]
        exact ⟨sc, k, h.of_eq rfl rfl rfl rfl rfl rfl (Nat.le_add_right _ _)⟩
    | observe =>
      rw [step_observe env hpc h.strategy] at hclean ⊢
      exact h.observe hpure hb hclean
    | boundary =>
      by_cases hp : s.pending = []
      · rw [step_boundary_nil env hpc hp]
        exact ⟨sc, k, h.of_eq rfl rfl rfl rfl rfl rfl le_rfl⟩
      · -- a full window forces a cut
        exfalso
        rw [step_boundary env hpc hp] at hclean
        obtain ⟨tr, d, hcut, -⟩ := cutRegion_frame env
          { s with
            strategy := .silenceCut (sc.markCut (secondsAt s.window.received))
            vadLog := s.vadLog ++ [.cut ⟨secondsAt s.window.received, true, false⟩ true] }
          s.window.received true true
        simp only [forceBoundary, h.strategy, forceSilence, hcut] at hclean
        have hforced := hclean ⟨secondsAt s.window.received, true, false⟩ true (by simp)
        simp at hforced
    | tick =>
      have heq := LoopState.eq_of_core (silenceTick_core env s)
      rw [step_tick_silence env hpc h.strategy, heq]
      exact ⟨sc, k, h.of_eq rfl rfl rfl rfl rfl rfl le_rfl⟩
    | tail =>
      obtain ⟨tr, d, htail, -⟩ := resolveTail_frame env s
      rw [step_tail env hpc, htail] at hdone
      exact absurd rfl hdone
    | done => exact absurd hpc hbefore.1
    | raised =>
      rw [step_raised env hpc]
      exact ⟨sc, k, h⟩

/-! ## Two sessions over one stream -/

/-- The sample positions of the cuts taken, in order. -/
def takenCuts (log : List VadEvent) : List ℤ :=
  log.filterMap fun
    | .frame _ => none
    | .cut cut taken => if taken then some (toSamples cut.at_) else none

/-- No whole frame of what was received is left unscanned. -/
def ScannedAll (s : LoopState K) : Prop :=
  ∃ sc, s.strategy = .silenceCut sc ∧ s.window.received < sc.scanned + FRAME_LEN

omit [Field K] [LinearOrder K] in
/-- The end of the audio resolves two states alike that have received all of the stream. -/
theorem Views.resolveTail {env : Env K} {s t : LoopState K} {stream : Bytes} (h : Views s t)
    (hpure : env.PureDecoder) (hs : s.window.Tracks stream) (ht : t.window.Tracks stream)
    (hrec : s.window.received = t.window.received) :
    (Loop.resolveTail env s).transcript = (Loop.resolveTail env t).transcript := by
  have hdecodes : decodesTail env s = decodesTail env t := by
    unfold decodesTail silentRemainder RollingWindow.windowSeconds RollingWindow.retained
    rw [h.strategy, h.retainedStart, h.processedThrough, hrec]
  have hsamples : s.window.samples none none = t.window.samples none none := by
    rw [RollingWindow.samples_whole, RollingWindow.samples_whole, hs.samples_eq le_rfl le_rfl,
      ht.samples_eq le_rfl le_rfl, h.retainedStart, hrec]
  unfold Loop.resolveTail
  rw [hdecodes]
  split_ifs
  · have hviews : Views (timedDecode env s .commit (s.window.samples none none) s.window.start).2
        (timedDecode env t .commit (t.window.samples none none) t.window.start).2 :=
      ⟨h.strategy, h.transcript, h.vadLog, h.retainedStart, h.processedThrough, h.overlap⟩
    have hhyp : (timedDecode env s .commit (s.window.samples none none) s.window.start).1
        = (timedDecode env t .commit (t.window.samples none none) t.window.start).1 := by
      simp only [timedDecode, hsamples, RollingWindow.start, h.retainedStart]
      exact hpure _ _ _ _
    dsimp only
    rw [hviews.commit_transcript env, hhyp]
  · exact h.transcript

/-- A session without forced cuts that has scanned all of its frames ends as the frame machine does:
with its cuts, and its commits once the tail is resolved. -/
theorem done_follows {env : Env K} (hpure : env.PureDecoder) {sc₀ : SilenceCut K}
    (h0 : sc₀.scanned = 0) (audio : List Bytes) {n : ℕ}
    (hdone : (session env (.silenceCut sc₀) audio n).pc = .done)
    (hclean : NoForcedCut (session env (.silenceCut sc₀) audio n).vadLog)
    (hall : ScannedAll (session env (.silenceCut sc₀) audio n)) :
    let f := frameRun env (levels audio.flatten) (frameInit env sc₀ audio.flatten)
      (audio.flatten.length / 2 / FRAME_LEN)
    (session env (.silenceCut sc₀) audio n).vadLog = f.vadLog ∧
      (session env (.silenceCut sc₀) audio n).transcript = (resolveTail env f).transcript := by
  obtain ⟨m, hpc, heq⟩ := session_done env _ audio hdone
  obtain ⟨tr, d, htail, -⟩ := resolveTail_frame env (session env (.silenceCut sc₀) audio m)
  have hlog : (session env (.silenceCut sc₀) audio n).vadLog
      = (session env (.silenceCut sc₀) audio m).vadLog := by rw [heq, htail]
  obtain ⟨sc', hs', hlt⟩ := hall
  rw [heq, htail] at hs' hlt
  rw [hlog] at hclean
  obtain ⟨sc, k, h⟩ := session_follows hpure h0 audio m (by simp [hpc]) hclean
  have hreceived := received_of_tail env _ audio hpc
  obtain rfl : sc = sc' := by
    have := h.strategy.symm.trans hs'
    simpa using this
  -- the scan position pins the number of frames down
  have hk : k = audio.flatten.length / 2 / FRAME_LEN := by
    have hle := h.scanned_le
    dsimp only at hlt
    rw [h.scanned, hreceived] at hle hlt
    refine ((Nat.div_eq_of_lt_le ?_ ?_)).symm
    · exact hle
    · rw [Nat.succ_mul]
      exact hlt
  subst hk
  refine ⟨hlog.trans h.views.vadLog, ?_⟩
  rw [heq]
  exact h.views.resolveTail hpure (session_inv env _ audio m).tracks h.tracks
    (hreceived.trans h.received.symm)

/-- Two sessions of a chunked strategy over the same stream, split into chunks in any two ways:
where both have run to their end, no cut was forced in either, and neither left a whole frame
unscanned, they cut, commit and return the same. -/
theorem sessions_agree {env : Env K} (hpure : env.PureDecoder) (arm silenceCut forceCut : Seconds)
    {audio audio' : List Bytes} (hstream : audio.flatten = audio'.flatten) {n n' : ℕ} :
    let s := session env (.silenceCut (.new arm silenceCut forceCut)) audio n
    let s' := session env (.silenceCut (.new arm silenceCut forceCut)) audio' n'
    s.pc = .done → s'.pc = .done → NoForcedCut s.vadLog → NoForcedCut s'.vadLog →
      ScannedAll s → ScannedAll s' →
      takenCuts s.vadLog = takenCuts s'.vadLog ∧ s.transcript.commits = s'.transcript.commits ∧
        s.result = s'.result := by
  intro s s' hdone hdone' hclean hclean' hall hall'
  obtain ⟨hlog, htr⟩ := done_follows hpure rfl audio hdone hclean hall
  obtain ⟨hlog', htr'⟩ := done_follows hpure rfl audio' hdone' hclean' hall'
  rw [← hstream] at hlog' htr'
  have hresult := session_resolved env (.silenceCut (.new arm silenceCut forceCut)) audio n
  have hresult' := session_resolved env (.silenceCut (.new arm silenceCut forceCut)) audio' n'
  rw [Resolved, if_pos hdone, htr] at hresult
  rw [Resolved, if_pos hdone', htr'] at hresult'
  refine ⟨?_, ?_, hresult.trans hresult'.symm⟩
  · rw [hlog, hlog']
  · rw [htr, htr']

/-! ## A step, whole and in pieces -/

theorem takenCuts_append (log more : List VadEvent) :
    takenCuts (log ++ more) = takenCuts log ++ takenCuts more := List.filterMap_append

theorem takenCuts_frames (activities : List Activity) :
    takenCuts (activities.map .frame) = [] := by
  simp [takenCuts]

/-- A window of a minute forces no cut in the sessions below. -/
theorem toSamples_minute : toSamples 60 = 960000 := by decide +kernel

/-- The look at the first `9 + m` frames of the step. -/
theorem judgeStream_step (m r : ℕ) (hm : m ≤ 1) :
    ∃ activities quiet sc',
      judgeStream realNumerics (stepPcm (479 + (8 + m + r) * 480)) (.new (27 / 100) (3 / 100) 60) 0
          ((9 + m) * 480)
        = (some ⟨secondsAt 4320, false, quiet⟩, sc', activities) ∧
      Listening sc' 8 ∧ sc'.scanned = 4320 := by
  obtain ⟨activities, quiet, sc', hscan, hlisten, hscanned⟩ :=
    scan_step m (List.replicate m holdFrame).flatten
  refine ⟨activities, quiet, sc', ?_, hlisten, hscanned⟩
  have hseen : (levels (stepPcm (479 + (8 + m + r) * 480)) : List ℝ).take ((9 + m) * 480)
      = stepFrame ++ ((List.replicate 8 holdFrame).flatten
        ++ (List.replicate m holdFrame).flatten) := by
    have hlen : (stepFrame ++ (List.replicate (8 + m) holdFrame).flatten).length
      = (9 + m) * 480 := by
      simp only [List.length_append, length_stepFrame, List.length_flatten, List.map_replicate,
        length_holdFrame, List.sum_replicate_nat, FRAME_LEN]
      omega
    rw [levels_stepPcm_frames, List.replicate_add, List.flatten_append, ← List.append_assoc,
      List.take_left' hlen, List.replicate_add, List.flatten_append]
  have hforce : ¬ toSamples 60 ≤ (((9 + m) * 480 : ℕ) : ℤ) - (0 : ℕ) := by
    rw [toSamples_minute]
    omega
  unfold judgeStream
  refine (if_neg hforce).trans ?_
  show SilenceCut.scan realNumerics 0 ((9 + m) * 480 / 480) 0
    ((levels (stepPcm (479 + (8 + m + r) * 480))).take ((9 + m) * 480)) _ = _
  rw [hseen, Nat.mul_div_cancel _ (by decide)]
  exact hscan

/-- In one chunk the cut asked for at the ninth frame is refused, and the tenth is never looked
at. -/
theorem step_whole :
    ∃ (quiet : Bool) (sc : SilenceCut ℝ) (activities : List Activity),
      Stands bareEnv (stepPcm 4799) .done
        (session bareEnv (.silenceCut (.new (27 / 100) (3 / 100) 60)) [stepPcm 4799] 7) [] sc
        (activities.map .frame ++ [.cut ⟨secondsAt 4320, false, quiet⟩ false]) 0 0 4800 := by
  obtain ⟨activities, quiet, sc', hj, -, -⟩ := judgeStream_step 1 0 le_rfl
  have hinit := init_stands bareEnv (.new (27 / 100) (3 / 100) 60) [stepPcm 4799]
  rw [List.flatten_singleton] at hinit
  have h1 : Stands bareEnv (stepPcm 4799) .observe _ [] _ [] 0 0 4800 :=
    hinit.take (length_stepPcm _) (by rw [bareEnv_capSamples]; decide)
  have h2 := (h1.leave (Nat.zero_le _) hj
    (by rintro cut ⟨⟩; norm_num [secondsAt, MIN_DECODE_S, RATE])).exhaust.resolve
  simp only [← run_add] at h2
  exact ⟨quiet, sc', activities, h2⟩

/-- The ten frames of the step, in three chunks: nine frames, and the tenth in two pieces. -/
def splitStep (n : ℕ) : List Bytes := [stepPcm 4319, holdPcm n, holdPcm (480 - n)]

theorem splitStep_flatten {n : ℕ} (hn : n < 480) : (splitStep n).flatten = stepPcm 4799 := by
  rw [splitStep, List.flatten_cons, List.flatten_cons, List.flatten_singleton, ← List.append_assoc,
    stepPcm_append_holdPcm, stepPcm_append_holdPcm]
  congr 1
  omega

/-- In three chunks the tenth frame is scanned with the last one, and its cut is taken. -/
theorem step_split {n : ℕ} (hn : n < 480) :
    ∃ (quiet quiet' : Bool) (sc : SilenceCut ℝ) (activities activities' : List Activity),
      Stands bareEnv (stepPcm 4799) .done
        (session bareEnv (.silenceCut (.new (27 / 100) (3 / 100) 60)) (splitStep n) 18) [] sc
        (activities.map .frame ++ [.cut ⟨secondsAt 4320, false, quiet⟩ false]
          ++ activities'.map .frame ++ [.cut ⟨secondsAt 4800, false, quiet'⟩ true]) 4800 4800 4800 ∧
      sc.scanned = 4800 := by
  obtain ⟨activities, quiet, sc', hj, hlisten, hscanned⟩ := judgeStream_step 0 1 (Nat.zero_le _)
  have hinit := init_stands bareEnv (.new (27 / 100) (3 / 100) 60) (splitStep n)
  rw [splitStep_flatten hn] at hinit
  have h1 : Stands bareEnv (stepPcm 4799) .observe _ [holdPcm n, holdPcm (480 - n)] _ [] 0 0 4320 :=
    hinit.take (length_stepPcm _) (by rw [bareEnv_capSamples]; decide)
  have h2 := h1.leave (Nat.zero_le _) hj
    (by rintro cut ⟨⟩; norm_num [secondsAt, MIN_DECODE_S, RATE])
  -- the second chunk is no frame yet
  have h3 := h2.take (length_holdPcm _) (by rw [bareEnv_capSamples]; omega)
  have hforce : ∀ received ≤ 4800, ∀ rs,
      ¬ toSamples sc'.forceCut ≤ ((received : ℕ) : ℤ) - (rs : ℕ) := by
    intro received hle rs
    rw [hlisten.forceCut, toSamples_minute]
    omega
  have hj3 : judgeStream bareEnv.numerics (stepPcm 4799) sc' 0 (4320 + n) = (none, sc', []) := by
    rw [judgeStream, if_neg (hforce _ (by omega) 0), hscanned, Nat.add_sub_cancel_left,
      Nat.div_eq_of_lt (show n < FRAME_LEN from hn)]
    rfl
  have h4 := (h3.leave (Nat.zero_le _) hj3 (by simp)).take (length_holdPcm _)
    (by rw [bareEnv_capSamples]; omega)
  rw [show 4320 + n + (480 - n) = 4800 by omega] at h4
  -- the third one completes it
  obtain ⟨activity, asked, sc'', hframe, hlast, -, hasks⟩ := hlisten.scanFrame 0
    (show 4320 ≤ 4320 + FRAME_LEN → 7 ≤ 8 from fun _ => by decide)
  obtain ⟨quiet', rfl⟩ := hasks (by decide)
  obtain ⟨-, -, -, hscanned', -⟩ := SilenceCut.scanFrame_some hframe
  have hseen : ((levels (stepPcm 4799)).drop 4320).take (4800 - 4320) = holdFrame ++ [] := by
    have hlen : (levels (stepPcm 4319) : List ℝ).length = 4320 := by
      rw [length_levels, length_stepPcm]
    rw [← stepPcm_append_holdPcm 4319 480, levels_append (by rw [length_stepPcm]),
      List.drop_left' hlen, levels_holdPcm, List.append_nil]
    exact List.take_of_length_le (by rw [List.length_replicate])
  have hj4 : judgeStream bareEnv.numerics (stepPcm 4799) sc' 0 4800
      = (some ⟨secondsAt 4800, false, quiet'⟩, sc'', [activity]) := by
    rw [judgeStream, if_neg (hforce 4800 le_rfl 0), hscanned, hseen]
    exact SilenceCut.scan_frame_some length_holdFrame hframe 0 []
  have h5 := h4.cut (p := 4800) (Nat.zero_le _) hj4 rfl
    (by norm_num [secondsAt, MIN_DECODE_S, RATE]) (by decide) le_rfl rfl
  rw [bareEnv_overlapSamples] at h5
  have hj5 : judgeStream bareEnv.numerics (stepPcm 4799) sc'' 4800 4800 = (none, sc'', []) := by
    have hnot := hforce 4800 le_rfl 4800
    rw [hlisten.forceCut, ← hlast.forceCut] at hnot
    rw [judgeStream, if_neg hnot, hscanned']
    rfl
  have h6 := (h5.leave hscanned'.ge hj5 (by simp)).exhaust.resolve
  simp only [← run_add] at h6
  exact ⟨quiet, quiet', sc'', activities, [activity], by simpa [session] using h6, hscanned'⟩

theorem NoForcedCut.append {log more : List VadEvent} (h : NoForcedCut log)
    (hmore : NoForcedCut more) : NoForcedCut (log ++ more) := by
  intro cut taken hmem
  exact (List.mem_append.mp hmem).elim (h cut taken) (hmore cut taken)

theorem noForcedCut_frames (activities : List Activity) :
    NoForcedCut (activities.map .frame) := by
  intro cut taken hmem
  obtain ⟨_, -, heq⟩ := List.mem_map.mp hmem
  cases heq

theorem noForcedCut_pause (at_ : Seconds) (silent taken : Bool) :
    NoForcedCut [.cut ⟨at_, false, silent⟩ taken] := by
  intro cut taken' hmem
  cases List.mem_singleton.mp hmem
  rfl

theorem noForcedCut_whole (activities : List Activity) (quiet : Bool) :
    NoForcedCut (activities.map .frame ++ [.cut ⟨secondsAt 4320, false, quiet⟩ false]) :=
  (noForcedCut_frames _).append (noForcedCut_pause _ _ _)

theorem noForcedCut_split (activities activities' : List Activity) (quiet quiet' : Bool) :
    NoForcedCut (activities.map .frame ++ [.cut ⟨secondsAt 4320, false, quiet⟩ false]
      ++ activities'.map .frame ++ [.cut ⟨secondsAt 4800, false, quiet'⟩ true]) :=
  ((noForcedCut_whole _ _).append (noForcedCut_frames _)).append (noForcedCut_pause _ _ _)

/-! ## The two sessions -/

/-- **Pause cuts do not depend on chunking**, where no refused cut leaves frames behind: for a
decoder that is a function of its region and offset, two sessions over one stream without forced
cuts take their cuts at the same sample positions, commit the same segments and return the same
transcript. And fed only the unscanned suffix, `observe` answers as it does on the whole window. -/
theorem cuts_independent_of_chunking {env : Env K} (hpure : env.PureDecoder)
    (arm silenceCut forceCut : Seconds) {audio audio' : List Bytes}
    (hstream : audio.flatten = audio'.flatten) :
    (∀ n n',
      let s := session env (.silenceCut (.new arm silenceCut forceCut)) audio n
      let s' := session env (.silenceCut (.new arm silenceCut forceCut)) audio' n'
      s.pc = .done → s'.pc = .done → NoForcedCut s.vadLog → NoForcedCut s'.vadLog →
        ScannedAll s → ScannedAll s' →
        takenCuts s.vadLog = takenCuts s'.vadLog ∧
          s.transcript.commits = s'.transcript.commits ∧ s.result = s'.result) ∧
    ∀ (sc : SilenceCut K) (samples : List K) (windowStart windowEnd : Seconds) (offset : ℕ),
      offset ≤ sc.unscannedOffset windowStart →
        sc.observe env.numerics (samples.drop offset) windowStart windowEnd offset
          = sc.observe env.numerics samples windowStart windowEnd 0 :=
  ⟨fun _ _ => sessions_agree hpure arm silenceCut forceCut hstream,
    fun sc samples _ _ _ h => sc.observe_suffix env.numerics samples _ _ h⟩

/-- The two ways of splitting the tenth frame of the step: both sessions take one cut. -/
theorem splitStep_cuts_agree :
    let s := session bareEnv (.silenceCut (.new (27 / 100) (3 / 100) 60)) (splitStep 160) 18
    let s' := session bareEnv (.silenceCut (.new (27 / 100) (3 / 100) 60)) (splitStep 320) 18
    takenCuts s.vadLog = takenCuts s'.vadLog ∧ s.transcript.commits = s'.transcript.commits ∧
      s.result = s'.result := by
  obtain ⟨_, _, sc, _, _, h, hscanned⟩ := step_split (n := 160) (by decide)
  obtain ⟨_, _, sc', _, _, h', hscanned'⟩ := step_split (n := 320) (by decide)
  refine (cuts_independent_of_chunking (fun _ _ _ _ => rfl) _ _ _ ?_).1 18 18 h.pc_eq h'.pc_eq ?_ ?_
    ⟨sc, h.strategy, ?_⟩ ⟨sc', h'.strategy, ?_⟩
  · rw [splitStep_flatten (by decide), splitStep_flatten (by decide)]
  · rw [h.vadLog]
    exact noForcedCut_split _ _ _ _
  · rw [h'.vadLog]
    exact noForcedCut_split _ _ _ _
  · rw [h.received_eq, hscanned]
    decide
  · rw [h'.received_eq, hscanned']
    decide

/-- Whatever the chunks, the cuts and the commits are the same. -/
def SameCuts (env : Env K) (sc : SilenceCut K) : Prop :=
  env.PureDecoder → ∀ audio audio' n n', audio.flatten = audio'.flatten →
    let s := session env (.silenceCut sc) audio n
    let s' := session env (.silenceCut sc) audio' n'
    s.pc = .done → s'.pc = .done → NoForcedCut s.vadLog → NoForcedCut s'.vadLog →
      takenCuts s.vadLog = takenCuts s'.vadLog ∧ s.transcript.commits = s'.transcript.commits

/-- **The cuts depend on the chunking**: over the same ten frames, the first session takes no cut
and the second one takes one. -/
theorem refused_cut_depends_on_chunking :
    ¬ SameCuts bareEnv (.new (27 / 100) (3 / 100) 60) := by
  intro hsame
  obtain ⟨quiet, sc, acts, h⟩ := step_whole
  obtain ⟨quiet', quiet'', sc', acts', acts'', h', -⟩ := step_split (n := 240) (by decide)
  obtain ⟨hcuts, -⟩ := hsame (fun _ _ _ _ => rfl) [stepPcm 4799] (splitStep 240) 7 18
    (by rw [splitStep_flatten (by decide), List.flatten_singleton]) h.pc_eq h'.pc_eq
    (by rw [h.vadLog]; exact noForcedCut_whole _ _)
      (by rw [h'.vadLog]; exact noForcedCut_split _ _ _ _)
  rw [h.vadLog, h'.vadLog] at hcuts
  simp only [takenCuts_append, takenCuts_frames] at hcuts
  simp [takenCuts] at hcuts

end Loop

end Myna
