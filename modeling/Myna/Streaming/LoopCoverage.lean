import Myna.Lib.Regions
import Myna.Streaming.LoopPass

/-!
# Myna — every sample is covered by a commit decode

* **`commitRegions`** — the regions decoded for commitment, as sample positions;
* **`HeardSince`** — the voice detector found a frame active after the last event of a kind;
* **`Accounted`** — the invariant: the commit regions run from `0` to `processedThrough` without a
  gap, and `heardSinceCut` is the voice heard since the last cut **asked for**;
* **`coverage_iff`** — the audio of a session is covered, in the sense of the docstrings, exactly
  when no remainder is left in which the only voice since the last cut *taken* was forgotten at a
  cut that was asked for and refused (`Masked`).
-/

namespace Myna

namespace Loop

variable {K : Type*}

/-! ## Regions -/

/-- The region of a decode, as sample positions: from its offset, as long as its samples. -/
def region (call : DecodeCall) : ℕ × ℕ :=
  ((toSamples call.offset).toNat, (toSamples call.offset).toNat + call.samples.length)

/-- The regions decoded for commitment, in order. -/
def commitRegions (decodes : List DecodeCall) : List (ℕ × ℕ) :=
  (decodes.filter (fun call => call.kind = .commit)).map region

theorem commitRegions_append_commit (decodes : List DecodeCall) (call : DecodeCall)
    (h : call.kind = .commit) :
    commitRegions (decodes ++ [call]) = commitRegions decodes ++ [region call] := by
  simp [commitRegions, h]

theorem commitRegions_append_other (decodes : List DecodeCall) (call : DecodeCall)
    (h : call.kind ≠ .commit) : commitRegions (decodes ++ [call]) = commitRegions decodes := by
  simp [commitRegions, h]

theorem previewCall_kind (env : Env K) (w : RollingWindow) :
    (previewCall env w).kind = .preview := by
  unfold previewCall regionCall
  split
  · rfl
  · split_ifs <;> rfl

theorem region_regionCall_stop {w : RollingWindow} {stream : Bytes} (h : w.Tracks stream)
    (kind : DecodeKind) {stop : ℕ} (hstart : w.retainedStart ≤ stop) (hstop : stop ≤ w.received) :
    region (regionCall kind w (some stop)) = (w.retainedStart, stop) := by
  have hlen := h.length_samples le_rfl hstop
  simp only [region, regionCall, RollingWindow.start, toSamples_secondsAt,
    Int.toNat_natCast, RollingWindow.samples_stop, hlen]
  rw [Nat.add_sub_cancel' hstart]

theorem region_regionCall {w : RollingWindow} {stream : Bytes} (h : w.Tracks stream)
    (kind : DecodeKind) :
    region (regionCall kind w none) = (w.retainedStart, w.received) := by
  have hregion := region_regionCall_stop h kind h.retainedStart_le_received le_rfl
  simpa only [regionCall, RollingWindow.samples_whole, RollingWindow.samples_stop] using hregion

/-! ## Voice since the last cut -/

/-- A frame was active, and no event of the kind `P` followed it. -/
def HeardSince (P : VadEvent → Prop) (log : List VadEvent) : Prop :=
  ∃ before after, log = before ++ .frame .active :: after ∧ ∀ e ∈ after, ¬ P e

/-- A cut was asked for. -/
def IsCut : VadEvent → Prop
  | .frame _ => False
  | .cut _ _ => True

/-- A cut was taken. -/
def IsTakenCut : VadEvent → Prop
  | .frame _ => False
  | .cut _ taken => taken = true

theorem heardSince_append {P : VadEvent → Prop} {log more : List VadEvent} :
    HeardSince P (log ++ more) ↔ HeardSince P more ∨ (HeardSince P log ∧ ∀ e ∈ more, ¬ P e) := by
  constructor
  · rintro ⟨before, after, heq, hafter⟩
    rcases List.append_eq_append_iff.mp heq with ⟨rest, hb, hm⟩ | ⟨rest, hl, hm⟩
    · exact Or.inl ⟨rest, after, hm, hafter⟩
    · cases rest with
      | nil =>
        exact Or.inl ⟨[], after, by simpa using hm.symm, hafter⟩
      | cons e rest =>
        simp only [List.cons_append, List.cons.injEq] at hm
        obtain ⟨rfl, rfl⟩ := hm
        exact Or.inr ⟨⟨before, rest, hl, fun e he => hafter e (by simp [he])⟩,
          fun e he => hafter e (by simp [he])⟩
  · rintro (⟨before, after, rfl, hafter⟩ | ⟨⟨before, after, rfl, hafter⟩, hmore⟩)
    · exact ⟨log ++ before, after, by simp, hafter⟩
    · refine ⟨before, after ++ more, by simp, ?_⟩
      intro e he
      rcases List.mem_append.mp he with he | he
      · exact hafter e he
      · exact hmore e he

theorem heardSince_frames {P : VadEvent → Prop} (hP : ∀ a, ¬ P (.frame a))
    (activities : List Activity) :
    HeardSince P (activities.map .frame) ↔ .active ∈ activities := by
  constructor
  · rintro ⟨before, after, heq, -⟩
    have hmem : VadEvent.frame .active ∈ activities.map .frame := by simp [heq]
    simpa using hmem
  · intro hmem
    obtain ⟨before, after, rfl⟩ := List.append_of_mem hmem
    refine ⟨before.map .frame, after.map .frame, by simp, ?_⟩
    intro e he
    obtain ⟨a, -, rfl⟩ := List.mem_map.mp he
    exact hP a

theorem not_heardSince_append_cut {P : VadEvent → Prop} {log : List VadEvent} {e : VadEvent}
    (he : P e) (hne : e ≠ .frame .active) : ¬ HeardSince P (log ++ [e]) := by
  rw [heardSince_append]
  rintro (⟨before, after, heq, -⟩ | ⟨-, hmore⟩)
  · have hmem : VadEvent.frame .active ∈ [e] := by simp [heq]
    exact hne (List.mem_singleton.mp hmem).symm
  · exact hmore e (by simp) he

/-! ## The invariant -/

/-- The commit regions run from `0` to `processedThrough` (past it once the tail is resolved), and
the strategy's memory of voice is what its log says. -/
structure Accounted (s : LoopState K) : Prop where
  gapless : ∃ hi, s.window.processedThrough ≤ hi ∧ Gapless 0 (commitRegions s.display.decodes) hi
  reached : s.pc ≠ .done → Gapless 0 (commitRegions s.display.decodes) s.window.processedThrough
  heard : ∀ sc, s.strategy = .silenceCut sc →
    (sc.heardSinceCut = true ↔ HeardSince IsCut s.vadLog)

theorem Accounted.of_gapless {s : LoopState K}
    (hgap : Gapless 0 (commitRegions s.display.decodes) s.window.processedThrough)
    (hheard : ∀ sc, s.strategy = .silenceCut sc →
      (sc.heardSinceCut = true ↔ HeardSince IsCut s.vadLog)) : Accounted s :=
  ⟨⟨_, le_rfl, hgap⟩, fun _ => hgap, hheard⟩

/-- A step that decodes nothing for commitment and retires nothing. -/
theorem Accounted.of_eq {s t : LoopState K} (h : Accounted s) (hpc : s.pc ≠ .done)
    (hd : commitRegions t.display.decodes = commitRegions s.display.decodes)
    (hw : t.window.processedThrough = s.window.processedThrough) (hs : t.strategy = s.strategy)
    (hlog : t.vadLog = s.vadLog) : Accounted t := by
  refine Accounted.of_gapless ?_ ?_
  · rw [hd, hw]
    exact h.reached hpc
  · rw [hs, hlog]
    exact h.heard

/-- What a scan adds to the log, the memory of voice follows. -/
theorem heard_scan {sc sc' : SilenceCut K} {log : List VadEvent} {activities : List Activity}
    (h : sc.heardSinceCut = true ↔ HeardSince IsCut log)
    (hsc : sc'.heardSinceCut = (sc.heardSinceCut || decide (.active ∈ activities))) :
    sc'.heardSinceCut = true ↔ HeardSince IsCut (log ++ activities.map .frame) := by
  have hframes : ∀ e ∈ activities.map VadEvent.frame, ¬ IsCut e := by
    intro e he
    obtain ⟨a, -, rfl⟩ := List.mem_map.mp he
    exact not_false
  rw [heardSince_append, heardSince_frames (fun _ => not_false), hsc, Bool.or_eq_true,
    decide_eq_true_iff, h, or_comm]
  exact or_congr_right ⟨fun hl => ⟨hl, hframes⟩, fun hl => hl.1⟩

/-- A cut that is asked for forgets the voice before it, and so does the strategy. -/
theorem heard_cut {sc : SilenceCut K} {log : List VadEvent} {cut : Cut} {taken : Bool}
    (hsc : sc.heardSinceCut = false) :
    sc.heardSinceCut = true ↔ HeardSince IsCut (log ++ [.cut cut taken]) := by
  rw [hsc]
  refine ⟨fun h => absurd h Bool.false_ne_true, fun h => absurd h ?_⟩
  exact not_heardSince_append_cut trivial (by simp)

variable [Field K] [LinearOrder K]

theorem accounted_observe {env : Env K} {stream : Bytes} {s : LoopState K} {sc : SilenceCut K}
    (hb : Bounded env stream s) (h : Accounted s) (hpc : s.pc = .observe)
    (hs : s.strategy = .silenceCut sc) : Accounted (observeStep env s sc) := by
  have hgap := h.reached (by simp [hpc])
  rcases hj : judge env s sc with ⟨asked, sc', acts⟩
  cases asked with
  | none =>
    rw [observeStep_none hj]
    refine Accounted.of_gapless hgap ?_
    rintro sc'' ⟨⟩
    simpa [judged] using heard_scan (h.heard sc hs) (judge_none hj)
  | some cut =>
    obtain ⟨p, hp, hat, -, hheard, -⟩ := judge_some hb.tracks hj
    rw [observeStep_some hj]
    by_cases htaken : takesCut s cut = true
    · rw [if_pos htaken]
      obtain ⟨tr, d, htake, hd⟩ := takeCut_frame env (judged s sc' acts [.cut cut true]) cut hat
      have hlt : s.window.processedThrough < p := processedThrough_lt_of_takesCut hat htaken
      rw [htake]
      refine Accounted.of_gapless ?_ ?_
      · show Gapless 0 (commitRegions d.decodes) (s.window.retire p _).processedThrough
        rw [hd, commitRegions_append_commit _ _ rfl,
          RollingWindow.retire_processedThrough_eq hlt.le hp]
        have hstart := hb.tracks.retainedStart_le
        have hregion := region_regionCall_stop hb.tracks .commit (hstart.trans hlt.le) hp
        rw [show (judged s sc' acts [.cut cut true]).window = s.window from rfl, hregion]
        exact hgap.snoc (r := (_, p)) hstart hlt.le
      · rintro sc'' ⟨⟩
        exact heard_cut hheard
    · rw [if_neg htaken]
      refine Accounted.of_gapless hgap ?_
      rintro sc'' ⟨⟩
      exact heard_cut hheard

omit [LinearOrder K] in
theorem accounted_boundary {env : Env K} {stream : Bytes} {s : LoopState K} {sc : SilenceCut K}
    (hb : Bounded env stream s) (h : Accounted s) (hpc : s.pc = .boundary)
    (hs : s.strategy = .silenceCut sc) :
    Accounted { forceBoundary env s with pc := .fill, cutTaken := true } := by
  have hgap := h.reached (by simp [hpc])
  have hpt := hb.tracks.processedThrough_le
  have hstart := hb.tracks.retainedStart_le
  obtain ⟨tr, d, hcut, hd⟩ := cutRegion_frame env
    { s with
      strategy := .silenceCut (sc.markCut (secondsAt s.window.received))
      vadLog := s.vadLog ++ [.cut ⟨secondsAt s.window.received, true, false⟩ true] }
    s.window.received true true
  simp only [forceBoundary, hs, forceSilence, hcut]
  refine Accounted.of_gapless ?_ ?_
  · show Gapless 0 (commitRegions d.decodes) (s.window.retire s.window.received).processedThrough
    have hregion := region_regionCall_stop hb.tracks .commit (hstart.trans hpt) le_rfl
    rw [hd, commitRegions_append_commit _ _ rfl, hregion,
      RollingWindow.retire_processedThrough_eq hpt le_rfl]
    exact hgap.snoc (r := (_, s.window.received)) hstart hpt
  · rintro sc'' ⟨⟩
    exact heard_cut rfl

/-- **Every step of a chunked session accounts for its audio.** -/
theorem step_accounted {env : Env K} {stream : Bytes} {s : LoopState K} {sc : SilenceCut K}
    (hb : Bounded env stream s) (hs : s.strategy = .silenceCut sc) (h : Accounted s) :
    Accounted (step env s) := by
  cases hpc : s.pc with
  | chunk =>
    refine h.of_eq (by simp [hpc]) ?_ ?_ ?_ ?_ <;>
      cases haudio : s.audio <;> simp [step, hpc, haudio]
  | fill =>
    rcases step_fill env hpc with ⟨-, hstep⟩ | ⟨-, hstep⟩ <;> rw [hstep] <;>
      exact h.of_eq (by simp [hpc]) rfl rfl rfl rfl
  | observe =>
    rw [step_observe _ hpc hs]
    exact accounted_observe hb h hpc hs
  | boundary =>
    by_cases hp : s.pending = []
    · rw [step_boundary_nil _ hpc hp]
      exact h.of_eq (by simp [hpc]) rfl rfl rfl rfl
    · rw [step_boundary _ hpc hp]
      exact accounted_boundary hb h hpc hs
  | tick =>
    have heq := LoopState.eq_of_core (silenceTick_core env s)
    rw [step_tick_silence _ hpc hs]
    refine h.of_eq (by simp [hpc]) ?_ (by rw [heq]) (by rw [heq]) (by rw [heq])
    show commitRegions (silenceTick env s).display.decodes = _
    rcases silenceTick_decodes env s with hd | hd
    · rw [hd]
    · rw [hd, commitRegions_append_other _ _ (by simp [previewCall_kind])]
  | tail =>
    have hgap := h.reached (by simp [hpc])
    obtain ⟨tr, d, htail, hd⟩ := resolveTail_frame env s
    rw [step_tail _ hpc, htail]
    refine ⟨?_, by simp, h.heard⟩
    dsimp only
    rw [hd]
    split_ifs
    · refine ⟨s.window.received, hb.tracks.processedThrough_le, ?_⟩
      rw [commitRegions_append_commit _ _ rfl, region_regionCall hb.tracks]
      exact hgap.snoc (r := (_, s.window.received)) hb.tracks.retainedStart_le
        hb.tracks.processedThrough_le
    · exact ⟨_, le_rfl, hgap⟩
  | done =>
    rw [step_done _ hpc]
    exact h
  | raised =>
    rw [step_raised _ hpc]
    exact h

theorem session_accounted (env : Env K) (arm silenceCut forceCut : Seconds) (audio : List Bytes)
    (n : ℕ) :
    Accounted (session env (.silenceCut (.new arm silenceCut forceCut)) audio n) := by
  have hinit : ∀ n, Bounded env audio.flatten (session env
        (.silenceCut (.new arm silenceCut forceCut)) audio n) ∧
      ∃ sc, (session env (.silenceCut (.new arm silenceCut forceCut)) audio n).strategy
        = .silenceCut sc := fun n =>
    ⟨session_inv _ _ _ n, (step_chunked env).run ⟨_, rfl⟩ n⟩
  induction n with
  | zero =>
    refine Accounted.of_gapless Gapless.nil ?_
    rintro sc ⟨⟩
    refine ⟨fun h => absurd h Bool.false_ne_true, ?_⟩
    rintro ⟨before, after, heq, -⟩
    simp [LoopState.init, session, run] at heq
  | succ n ih =>
    obtain ⟨hb, sc, hs⟩ := hinit n
    rw [session_succ]
    exact step_accounted hb hs ih

/-! ## Sessions -/

/-- What the end of the audio owes: the samples after `processedThrough` lie in a commit region,
unless the utterance is shorter than the minimum, or no frame since the last cut taken was
active. -/
def TailCovered (env : Env K) (before after : LoopState K) : Prop :=
  (∀ x, before.window.processedThrough ≤ x → x < before.window.received →
      ∃ r ∈ commitRegions after.display.decodes, r.1 ≤ x ∧ x < r.2) ∨
    secondsAt before.window.received < env.config.minUtterance ∨
    ¬ HeardSince IsTakenCut before.vadLog

/-- A remainder without overlap whose voice was forgotten at a cut that was refused. -/
def Masked (env : Env K) (s : LoopState K) : Prop :=
  0 < s.window.processedThrough ∧ s.window.processedThrough ≤ s.window.retainedStart ∧
    s.window.processedThrough < s.window.received ∧
    env.config.minUtterance ≤ secondsAt s.window.received ∧
    HeardSince IsTakenCut s.vadLog ∧ ¬ HeardSince IsCut s.vadLog

theorem tailCovered_iff {env : Env K} {stream : Bytes} {s : LoopState K} {sc : SilenceCut K}
    (hb : Bounded env stream s) (hs : s.strategy = .silenceCut sc) (h : Accounted s)
    (hpc : s.pc = .tail) : TailCovered env s (step env s) ↔ ¬ Masked env s := by
  have hstart := hb.tracks.retainedStart_le
  have hheard := h.heard sc hs
  obtain ⟨tr, d, htail, hd⟩ := resolveTail_frame env s
  have hdec : (step env s).display.decodes = d.decodes := by
    rw [step_tail _ hpc, htail]
  unfold TailCovered Masked
  rw [hdec, hd]
  cases hdecode : decodesTail env s with
  | true =>
    -- the remainder is decoded: one region holds it
    have hnot : ¬ decodesTail env s = false := by simp [hdecode]
    rw [decodesTail_eq_false_iff hs] at hnot
    constructor
    · rintro - ⟨hpos, hov, -, -, -, hcut⟩
      rw [← hheard, Bool.not_eq_true] at hcut
      exact hnot (Or.inr (Or.inl ⟨hpos, hov, hcut⟩))
    · intro _
      left
      intro x hx hx'
      refine ⟨(s.window.retainedStart, s.window.received), ?_, hstart.trans hx, hx'⟩
      rw [if_pos rfl, commitRegions_append_commit _ _ rfl, region_regionCall hb.tracks]
      simp
  | false =>
    -- nothing is decoded any more, and no commit region reaches past `processedThrough`
    rw [if_neg Bool.false_ne_true]
    constructor
    · rintro hcov ⟨-, -, hlt, hmin, htaken, -⟩
      rcases hcov with hcov | hcov | hcov
      · obtain ⟨r, hr, -, hr'⟩ := hcov _ le_rfl hlt
        exact absurd ((h.reached (by simp [hpc])).stop_le r hr) (not_le.mpr hr')
      · exact absurd hmin (not_le.mpr hcov)
      · exact hcov htaken
    · intro hmask
      rcases (decodesTail_eq_false_iff hs).mp hdecode with hall | ⟨hpos, hov,
        hquiet⟩ | ⟨hzero, hmin⟩
      · left
        intro x hx hx'
        omega
      · by_cases hlt : s.window.processedThrough < s.window.received
        · right
          by_contra hcon
          push Not at hcon
          have hcut : ¬ HeardSince IsCut s.vadLog := by
            rw [← hheard, hquiet]
            exact Bool.false_ne_true
          exact hmask ⟨hpos, hov, hlt, hcon.1, hcon.2, hcut⟩
        · left
          intro x hx hx'
          omega
      · -- no cut was taken: the window is the whole utterance
        right
        left
        have hrs : s.window.retainedStart = 0 := by omega
        simpa [RollingWindow.windowSeconds, RollingWindow.retained, hrs] using hmin

/-- **The audio of a session is covered**: at every point the regions decoded for commitment run
from `0` past `processedThrough` without a gap and hold every sample before it, and at the end of
the audio every sample after it is decoded for commitment as well, but for the exemptions of
`TailCovered`. -/
def CoversAudio (env : Env K) (strategy : Strategy K) (audio : List Bytes) : Prop :=
  (∀ n,
    (∃ hi, (session env strategy audio n).window.processedThrough ≤ hi ∧
      Gapless 0 (commitRegions (session env strategy audio n).display.decodes) hi) ∧
    ∀ x < (session env strategy audio n).window.processedThrough,
      ∃ r ∈ commitRegions (session env strategy audio n).display.decodes, r.1 ≤ x ∧ x < r.2) ∧
  ∀ n, (session env strategy audio n).pc = .tail →
    TailCovered env (session env strategy audio n) (session env strategy audio (n + 1))

/-- At the tail of a chunked session. -/
theorem session_tailCovered_iff (env : Env K) (arm silenceCut forceCut : Seconds)
    (audio : List Bytes) {n : ℕ}
    (hpc : (session env (.silenceCut (.new arm silenceCut forceCut)) audio n).pc = .tail) :
    TailCovered env (session env (.silenceCut (.new arm silenceCut forceCut)) audio n)
        (session env (.silenceCut (.new arm silenceCut forceCut)) audio (n + 1)) ↔
      ¬ Masked env (session env (.silenceCut (.new arm silenceCut forceCut)) audio n) := by
  obtain ⟨sc, hs⟩ := (step_chunked env).run
    (s := LoopState.init env (.silenceCut (.new arm silenceCut forceCut)) audio) ⟨_, rfl⟩ n
  rw [session_succ]
  exact tailCovered_iff (session_inv _ _ _ n) hs (session_accounted _ _ _ _ _ n) hpc

/-- **Every sample is covered by a commit decode**, whatever the decoder, the levels and the
chunking, exactly in the sessions that do not end with a masked remainder. -/
theorem coverage_iff (env : Env K) (arm silenceCut forceCut : Seconds) (audio : List Bytes) :
    CoversAudio env (.silenceCut (.new arm silenceCut forceCut)) audio ↔
      ∀ n, (session env (.silenceCut (.new arm silenceCut forceCut)) audio n).pc = .tail →
        ¬ Masked env (session env (.silenceCut (.new arm silenceCut forceCut)) audio n) := by
  have hgap := fun n => (session_accounted env arm silenceCut forceCut audio n).gapless
  constructor
  · rintro ⟨-, hcov⟩ n hpc
    exact (session_tailCovered_iff env _ _ _ _ hpc).mp (hcov n hpc)
  · intro hmask
    refine ⟨fun n => ⟨hgap n, fun x hx => ?_⟩, fun n hpc =>
      (session_tailCovered_iff env _ _ _ _ hpc).mpr (hmask n hpc)⟩
    obtain ⟨hi, hle, hregions⟩ := hgap n
    exact hregions.covers (Nat.zero_le x) (hx.trans_le hle)

/-! ## A masked remainder -/

/-- `0.3` s of silence, a step, and `0.17` s of silence. -/
def refusedAudio : List Bytes := [quietPcm 4800, stepPcm 479, quietPcm 2720]

/-- A strategy that forces its cuts after `0.2` s takes the one at `0.3` s, hears the step, and asks
for a cut that is too close to be taken: its remainder is skipped. -/
theorem refused_cut_masks :
    ¬ CoversAudio bareEnv (.silenceCut (.new 15 (1 / 2) (1 / 5))) refusedAudio := by
  have hforce : toSamples (1 / 5) = 3200 := by decide +kernel
  set sc : SilenceCut ℝ := .new 15 (1 / 2) (1 / 5) with hsc
  set stream := refusedAudio.flatten with hstream
  have hjudge : ∀ (t : SilenceCut ℝ) (rs received : ℕ), t.forceCut = 1 / 5 →
      rs + 3200 ≤ received → judgeStream bareEnv.numerics stream t rs received
        = (some ⟨secondsAt received, true, false⟩, t.markCut (secondsAt received), []) := by
    intro t rs received ht hfull
    refine if_pos ?_
    rw [ht, hforce]
    omega
  -- the first chunk fills the force length; its cut is far enough from the start, and taken
  have h1 : Stands bareEnv stream .observe _ [stepPcm 479, quietPcm 2720] sc [] 0 0 4800 :=
    (init_stands bareEnv sc refusedAudio).take (length_quietPcm _)
      (by rw [bareEnv_capSamples]; decide)
  have h2 := h1.cut (p := 4800) le_rfl (hjudge sc 0 4800 rfl (by omega)) rfl
    (by norm_num [secondsAt, MIN_DECODE_S, RATE]) (by omega) le_rfl rfl
  rw [bareEnv_overlapSamples] at h2
  set sc' := sc.markCut (secondsAt (4800 : ℕ)) with hsc'
  have hscanned : sc'.scanned = 4800 := SilenceCut.markCut_scanned _ _
  have hj2 : judgeStream bareEnv.numerics stream sc' 4800 4800 = (none, sc', []) := by
    rw [judgeStream, if_neg (by show ¬ toSamples (1 / 5) ≤ _; rw [hforce]; decide), hscanned]
    rfl
  have h3 := h2.leave hscanned.ge hj2 (by simp)
  -- the step is heard
  have h4 : Stands bareEnv stream .observe _ [quietPcm 2720] sc' _ 4800 4800 5280 :=
    h3.take (length_stepPcm _) (by rw [bareEnv_capSamples]; decide)
  have hframe : (((levels stream).drop 4800).take (5280 - 4800) : List ℝ) = stepFrame ++ [] := by
    have hlen : (levels (quietPcm 4800) : List ℝ).length = 4800 := by
      rw [length_levels, length_quietPcm]
    have hstep : (levels (stepPcm 479) : List ℝ).length = 5280 - 4800 := by
      rw [length_levels, length_stepPcm]
    have hflat : stream = quietPcm 4800 ++ (stepPcm 479 ++ (quietPcm 2720 ++ [])) := by
      rw [hstream, refusedAudio, List.flatten_cons, List.flatten_cons, List.flatten_cons,
        List.flatten_nil]
    rw [hflat, levels_append (by rw [length_quietPcm]), List.drop_left' hlen,
      levels_append (by rw [length_stepPcm]), List.take_left' hstep, levels_stepPcm,
        List.append_nil]
    rfl
  obtain ⟨activity, sc'', hframe', hrun⟩ := SilenceCut.scanFrame_unarmed realNumerics sc' 4800
    (by show ((0 + FRAME_LEN : ℕ) : ℤ) < toSamples 15; norm_num [toSamples, roundHalfEven, RATE,
      FRAME_LEN]) stepFrame
  obtain ⟨rfl, -⟩ := scanFrame_step rfl rfl hframe'
  have hscanned' := (SilenceCut.scanFrame_none hframe').1
  obtain ⟨-, -, -, -, hforceCut⟩ := scanFrame_levels hframe'
  have hj3 : judgeStream bareEnv.numerics stream sc' 4800 5280 = (none, sc'', [.active]) := by
    rw [judgeStream, if_neg (by show ¬ toSamples (1 / 5) ≤ _; rw [hforce]; decide),
      hscanned, hframe]
    exact SilenceCut.scan_frame_none length_stepFrame hframe' 0 []
  have h5 := h4.leave hscanned.ge hj3 (by simp)
  -- `0.2` s after the cut the next one is asked for, and refused
  have h6 : Stands bareEnv stream .observe _ [] sc'' _ 4800 4800 8000 :=
    h5.take (length_quietPcm _) (by rw [bareEnv_capSamples]; decide)
  have h7 := (h6.leave (by rw [hscanned']; decide) (hjudge sc'' 4800 8000 hforceCut (by omega))
    (by rintro cut ⟨⟩; norm_num [secondsAt, MIN_DECODE_S, RATE])).exhaust
  simp only [← run_add] at h7
  rintro ⟨-, hcov⟩
  refine (session_tailCovered_iff bareEnv 15 (1 / 2) (1 / 5) refusedAudio (n := 17) h7.pc_eq).mp
    (hcov 17 h7.pc_eq) ⟨?_, ?_, ?_, ?_, ?_, ?_⟩
  · rw [session, h7.processedThrough_eq]
    decide
  · rw [session, h7.processedThrough_eq, h7.retainedStart_eq]
  · rw [session, h7.processedThrough_eq, h7.received_eq]
    decide
  · rw [session, h7.received_eq]
    norm_num [bareEnv, MIN_DECODE_S, secondsAt, RATE]
  · rw [session, h7.vadLog]
    exact ⟨[.cut ⟨secondsAt 4800, true, false⟩ true], [.cut ⟨secondsAt 8000, true, false⟩ false],
      rfl, by simp [IsTakenCut]⟩
  · rw [session, h7.vadLog]
    exact not_heardSince_append_cut (e := .cut ⟨secondsAt 8000, true, false⟩ false)
      trivial (by simp)

end Loop

end Myna
