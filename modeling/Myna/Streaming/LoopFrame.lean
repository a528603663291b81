import Myna.Lib.StepSystem
import Myna.Streaming.Loop

/-!
# Myna — what each operation of the loop can change

One lemma per operation of `Loop.lean`, saying once which fields of the state it may touch; the
invariants of the loop are derived from these. What an operation writes into the transcript and
the events is left open here: `LoopTranscript.lean` is about that.

* **`cutRegion_frame`**, **`forceAgreement_frame`**, **`resolveTail_frame`** — one commit decode,
  then at most a `retire`;
* **`agreementTick_frame`**, **`silenceTick_core`** — the ticks; a chunked one is display only;
* **`observeStep_cases`** — the three ways a pass over the unscanned audio ends;
* **`run_succ`**, **`run_add`** — runs.
-/

namespace Myna

variable {K : Type*}

/-- The state without its display: all that decides what is committed. -/
def LoopState.core (s : LoopState K) : LoopState K := { s with display := {} }

/-- States with the same core differ in their display only. -/
theorem LoopState.eq_of_core {s t : LoopState K} (h : t.core = s.core) :
    t = { s with display := t.display } := by
  cases s
  cases t
  simp only [core, LoopState.mk.injEq] at h ⊢
  simpa using h

namespace Loop

/-! ## Display operations -/

@[simp] theorem emit_core (s : LoopState K) (event : Event) : (emit s event).core = s.core := rfl

@[simp] theorem emit_decodes (s : LoopState K) (event : Event) :
    (emit s event).display.decodes = s.display.decodes := rfl

@[simp] theorem emitUnstable_core (s : LoopState K) (text : Text) :
    (emitUnstable s text).core = s.core := by
  unfold emitUnstable
  split_ifs <;> rfl

@[simp] theorem emitUnstable_decodes (s : LoopState K) (text : Text) :
    (emitUnstable s text).display.decodes = s.display.decodes := by
  unfold emitUnstable
  split_ifs <;> rfl

/-! ## Committing -/

/-- What `commit` may change: the transcript and the events. -/
theorem commit_frame (env : Env K) (s : LoopState K) (words : List Word) :
    ∃ tr ev, (commit env s words).2
      = { s with transcript := tr, display := { s.display with events := ev } } := by
  unfold commit
  split_ifs
  · exact ⟨s.transcript, s.display.events, rfl⟩
  · exact ⟨_, _, rfl⟩

theorem commitDecision_frame (env : Env K) (s : LoopState K) (decision : Option CommitDecision) :
    ∃ tr ev, (commitDecision env s decision).2
      = { s with transcript := tr, display := { s.display with events := ev } } := by
  cases decision with
  | none => exact ⟨s.transcript, s.display.events, rfl⟩
  | some d =>
    obtain ⟨tr, ev, h⟩ := commit_frame env s d.commitWords
    refine ⟨{ tr with committedThrough := max tr.committedThrough d.commitEnd }, ev, ?_⟩
    simp only [commitDecision, h, coverTo]

/-- The record of a decode of the region from the window's start to `stop`. -/
def regionCall (kind : DecodeKind) (w : RollingWindow) (stop : Option ℤ) : DecodeCall :=
  ⟨kind, w.samples none stop, w.start⟩

theorem commitCut_frame (env : Env K) (s : LoopState K) (hyp : Hypothesis) (cut : ℕ)
    (forced keepOverlap : Bool) :
    ∃ tr ev, commitCut env s hyp cut forced keepOverlap
      = { s with transcript := tr, display := { s.display with events := ev } } := by
  cases keepOverlap with
  | true => exact commitDecision_frame env s _
  | false =>
    obtain ⟨tr, ev, h⟩ := commit_frame env s hyp.words
    refine ⟨{ tr with committedThrough := max tr.committedThrough (secondsAt cut) }, ev, ?_⟩
    simp only [commitCut, Bool.false_eq_true, if_false, h, coverTo]

theorem cutRegion_frame (env : Env K) (s : LoopState K) (cut : ℕ) (forced keepOverlap : Bool) :
    ∃ tr d, cutRegion env s cut forced keepOverlap = { s with
      transcript := tr
      window := s.window.retire cut keepOverlap
      display := d } ∧ d.decodes
        = s.display.decodes ++ [regionCall .commit s.window (some cut)] := by
  obtain ⟨tr, ev, h⟩ := commitCut_frame env
    (timedDecode env s .commit (s.window.samples none (some cut)) s.window.start).2
    (timedDecode env s .commit (s.window.samples none (some cut)) s.window.start).1
    cut forced keepOverlap
  simp only [timedDecode] at h
  simp only [cutRegion, timedDecode, h]
  exact ⟨tr, _, rfl, rfl⟩

/-- Taking a cut commits a region, as `cut_region` does. -/
theorem takeCut_frame (env : Env K) (s : LoopState K) (cut : Cut) {p : ℕ}
    (hat : cut.at_ = secondsAt p) :
    ∃ tr d, takeCut env s cut = { s with
      transcript := tr
      window := s.window.retire p (keepsOverlap env cut)
      cutTaken := true
      display := d } ∧ d.decodes = s.display.decodes ++ [regionCall .commit s.window (some p)] := by
  obtain ⟨tr, d, h, hd⟩ := cutRegion_frame env s p cut.forced (keepsOverlap env cut)
  refine ⟨tr, d, ?_, hd⟩
  unfold takeCut
  rw [hat, toSamples_secondsAt, Int.toNat_natCast, h]

/-- A cut the loop takes lies past what is processed. -/
theorem processedThrough_lt_of_takesCut {s : LoopState K} {cut : Cut} {p : ℕ}
    (hat : cut.at_ = secondsAt p) (h : takesCut s cut = true) : s.window.processedThrough < p := by
  unfold takesCut at h
  rw [hat, toSamples_secondsAt] at h
  simp only [Bool.and_eq_true, Bool.not_eq_true', decide_eq_false_iff_not, not_le] at h
  exact_mod_cast h.2

theorem forceAgreement_frame (env : Env K) (s : LoopState K) :
    ∃ tr d, forceAgreement env s = { s with
      transcript := tr
      lastHyp := none
      window := s.window.retire s.window.received
      display := d } ∧ d.decodes = s.display.decodes ++ [regionCall .commit s.window none] := by
  obtain ⟨tr, ev, h⟩ := commitDecision_frame env
    (timedDecode env s .commit (s.window.samples none none) s.window.start).2
    (boundaryCommit (timedDecode env s .commit (s.window.samples none none) s.window.start).1
      (secondsAt s.window.received) (((s.window.received : ℚ) - s.window.overlap) / RATE))
  simp only [timedDecode] at h
  simp only [forceAgreement, timedDecode, h]
  exact ⟨tr, _, rfl, rfl⟩

/-- What the end of the audio may change: a commit decode of the whole window where there is a
remainder to decode, and the result. -/
theorem resolveTail_frame (env : Env K) (s : LoopState K) :
    ∃ tr d, resolveTail env s = { s with
      pc := .done
      result := some tr.committed.flatten
      transcript := tr
      display := d } ∧
      d.decodes = if decodesTail env s then s.display.decodes ++ [regionCall .commit s.window none]
        else s.display.decodes := by
  unfold resolveTail
  split_ifs with htail
  · obtain ⟨tr, ev, h⟩ := commit_frame env
      (timedDecode env s .commit (s.window.samples none none) s.window.start).2
      (timedDecode env s .commit (s.window.samples none none) s.window.start).1.words
    simp only [timedDecode] at h
    simp only [timedDecode, h]
    exact ⟨tr, _, rfl, rfl⟩
  · exact ⟨s.transcript, s.display, rfl, rfl⟩

/-- A forced boundary decodes up to the newest sample and retires that far, whatever the
strategy. -/
theorem forceBoundary_frame [Field K] (env : Env K) (s : LoopState K) :
    ∃ st tr hyp log d stop, forceBoundary env s = { s with
      strategy := st
      transcript := tr
      lastHyp := hyp
      vadLog := log
      window := s.window.retire s.window.received
      display := d } ∧ d.decodes = s.display.decodes ++ [regionCall .commit s.window stop] ∧
      (stop = none ∨ stop = some (s.window.received : ℤ)) := by
  unfold forceBoundary
  split
  · next sc hs =>
    obtain ⟨tr, d, hcut, hd⟩ := cutRegion_frame env
      { s with
        strategy := .silenceCut (sc.markCut (secondsAt s.window.received))
        vadLog := s.vadLog ++ [.cut ⟨secondsAt s.window.received, true, false⟩ true] }
      s.window.received true true
    exact ⟨_, tr, _, _, d, _, hcut, hd, Or.inr rfl⟩
  · obtain ⟨tr, d, hforce, hd⟩ := forceAgreement_frame env s
    exact ⟨s.strategy, tr, none, s.vadLog, d, none, hforce, hd, Or.inl rfl⟩

/-! ## Ticks -/

/-- The region a preview decodes: the whole window, or its last `tail` seconds. -/
def previewCall (env : Env K) (w : RollingWindow) : DecodeCall :=
  match env.config.partials.tail with
  | none => regionCall .preview w none
  | some tail =>
    if tail ≠ 0 ∧ tail < w.windowSeconds then
      ⟨.preview, w.samples (some (w.received - toSamples tail)) none,
        ((w.received - toSamples tail : ℤ) : ℚ) / RATE⟩
    else regionCall .preview w none

theorem chunkedPreview_frame (env : Env K) (s : LoopState K) :
    (chunkedPreview env s).2 = { s with display := { s.display with
      decodes := s.display.decodes ++ [previewCall env s.window] } } := by
  unfold chunkedPreview previewCall regionCall
  cases env.config.partials.tail with
  | none => rfl
  | some tail =>
    dsimp only
    split_ifs <;> rfl

theorem previewTick_core (env : Env K) (s : LoopState K) : (previewTick env s).core = s.core := by
  have h := chunkedPreview_frame env s
  unfold previewTick
  dsimp only
  split_ifs
  · rw [emitUnstable_core, h]
    rfl
  · rw [emit_core, h]
    rfl

theorem previewTick_decodes (env : Env K) (s : LoopState K) :
    (previewTick env s).display.decodes = s.display.decodes ++ [previewCall env s.window] := by
  have h := chunkedPreview_frame env s
  unfold previewTick
  dsimp only
  split_ifs
  · rw [emitUnstable_decodes, h]
  · rw [emit_decodes, h]

/-- **A chunked tick is display only.** -/
theorem silenceTick_core (env : Env K) (s : LoopState K) : (silenceTick env s).core = s.core := by
  unfold silenceTick
  split_ifs
  · rfl
  · rfl
  · dsimp only
    split_ifs
    · exact previewTick_core _ _
    · rfl

/-- A chunked tick decodes at most one preview. -/
theorem silenceTick_decodes (env : Env K) (s : LoopState K) :
    (silenceTick env s).display.decodes = s.display.decodes ∨
      (silenceTick env s).display.decodes = s.display.decodes ++ [previewCall env s.window] := by
  unfold silenceTick
  split_ifs
  · exact Or.inl rfl
  · exact Or.inl rfl
  · dsimp only
    split_ifs
    · exact Or.inr (previewTick_decodes _ _)
    · exact Or.inl rfl

@[simp] theorem agreementShow_core (env : Env K) (s : LoopState K) (hyp : Hypothesis)
    (produced : Bool) : (agreementShow env s hyp produced).core = s.core := by
  unfold agreementShow
  dsimp only
  split_ifs
  · exact emitUnstable_core _ _
  · rw [emit_core, emitUnstable_core]

@[simp] theorem agreementShow_decodes (env : Env K) (s : LoopState K) (hyp : Hypothesis)
    (produced : Bool) : (agreementShow env s hyp produced).display.decodes = s.display.decodes := by
  unfold agreementShow
  dsimp only
  split_ifs
  · exact emitUnstable_decodes _ _
  · rw [emit_decodes, emitUnstable_decodes]

/-- What an agreement tick may commit: the transcript, and the agreed audio is retired. -/
theorem agreementCommit_frame (env : Env K) (s : LoopState K) (decision : Option CommitDecision) :
    ∃ tr w d, (agreementCommit env s decision).2 = { s with
      transcript := tr
      window := w
      display := d } ∧ (w = s.window ∨ ∃ through, w = s.window.retire through) ∧
      d.decodes = s.display.decodes := by
  cases decision with
  | none => exact ⟨s.transcript, s.window, s.display, rfl, Or.inl rfl, rfl⟩
  | some dec =>
    obtain ⟨tr, ev, h⟩ := commit_frame env s dec.commitWords
    by_cases hlt : s.transcript.committedThrough < dec.commitEnd
    · simp only [agreementCommit, if_pos hlt, h, coverTo]
      exact ⟨_, _, _, rfl, Or.inr ⟨_, rfl⟩, rfl⟩
    · simp only [agreementCommit, if_neg hlt]
      exact ⟨s.transcript, s.window, s.display, rfl, Or.inl rfl, rfl⟩

/-- **An agreement tick** does nothing, or decodes the whole window once and commits. -/
theorem agreementTick_frame (env : Env K) (s : LoopState K) :
    agreementTick env s = s ∨ ∃ tr w hyp d, agreementTick env s = { s with
      transcript := tr
      window := w
      lastHyp := hyp
      display := d } ∧ (w = s.window ∨ ∃ through, w = s.window.retire through) ∧
      d.decodes = s.display.decodes ++ [regionCall .tick s.window none] := by
  unfold agreementTick
  split_ifs with hspace
  · exact Or.inl rfl
  · right
    simp only [timedDecode]
    generalize env.decode s.display.decodes.length (s.window.samples none none) s.window.start = hyp
    generalize hcommit : agreementCommit env _ _ = committed
    obtain ⟨tr, w, d, h, hw, hd⟩ := hcommit ▸ agreementCommit_frame env _ _
    obtain ⟨produced, t⟩ := committed
    obtain rfl : t = _ := h
    refine ⟨tr, w, some hyp, _,
      LoopState.eq_of_core (agreementShow_core env _ hyp produced), hw, ?_⟩
    rw [agreementShow_decodes]
    exact hd

/-! ## Observing -/

section

variable [Field K] [LinearOrder K]

/-- What the strategy makes of the window. -/
def judge (env : Env K) (s : LoopState K) (sc : SilenceCut K) :
    Option Cut × SilenceCut K × List Activity :=
  if toSamples sc.forceCut ≤ (s.window.received : ℤ) - s.window.retainedStart then
    (some ⟨s.window.ends, true, false⟩, sc.markCut s.window.ends, [])
  else
    SilenceCut.scan env.numerics s.window.retainedStart ((unscanned s sc).length / FRAME_LEN)
      (sc.unscannedOffset s.window.start) (unscanned s sc) sc

/-- The loop reads from `unscannedOffset` on, so `observe` never raises in it. -/
theorem observe_eq_judge (env : Env K) (s : LoopState K) (sc : SilenceCut K) :
    sc.observe env.numerics (unscanned s sc) s.window.start s.window.ends
      (sc.unscannedOffset s.window.start) = .ok (judge env s sc) :=
  SilenceCut.observe_unscanned _ _ _ _ _

/-- The state after the strategy has looked at the window. -/
def judged (s : LoopState K) (sc : SilenceCut K) (activities : List Activity)
    (asked : List VadEvent) : LoopState K :=
  { s with
    strategy := .silenceCut sc
    vadLog := s.vadLog ++ activities.map .frame ++ asked }

theorem observeStep_none {env : Env K} {s : LoopState K} {sc sc' : SilenceCut K}
    {activities : List Activity} (h : judge env s sc = (none, sc', activities)) :
    observeStep env s sc = { judged s sc' activities [] with pc := .boundary } := by
  simp only [observeStep, observe_eq_judge, h, judged, List.append_nil]

theorem observeStep_some {env : Env K} {s : LoopState K} {sc sc' : SilenceCut K} {cut : Cut}
    {activities : List Activity} (h : judge env s sc = (some cut, sc', activities)) :
    observeStep env s sc = if takesCut s cut
      then takeCut env (judged s sc' activities [.cut cut true]) cut
      else { judged s sc' activities [.cut cut false] with pc := .boundary } := by
  simp only [observeStep, observe_eq_judge, h, judged]
  cases takesCut s cut <;> rfl

/-- What a pass over the unscanned audio leaves alone. -/
theorem observeStep_input (env : Env K) (s : LoopState K) (sc : SilenceCut K) :
    (observeStep env s sc).audio = s.audio ∧ (observeStep env s sc).pending = s.pending ∧
      (observeStep env s sc).result = s.result ∧
      ((observeStep env s sc).pc = s.pc ∨ (observeStep env s sc).pc = .boundary) := by
  rcases hj : judge env s sc with ⟨asked, sc', acts⟩
  cases asked with
  | none =>
    rw [observeStep_none hj]
    exact ⟨rfl, rfl, rfl, Or.inr rfl⟩
  | some cut =>
    rw [observeStep_some hj]
    by_cases htaken : takesCut s cut = true
    · rw [if_pos htaken]
      obtain ⟨tr, d, hcut, -⟩ := cutRegion_frame env (judged s sc' acts [.cut cut true])
        (toSamples cut.at_).toNat cut.forced (keepsOverlap env cut)
      rw [takeCut, hcut]
      exact ⟨rfl, rfl, rfl, Or.inl rfl⟩
    · rw [if_neg htaken]
      exact ⟨rfl, rfl, rfl, Or.inr rfl⟩

/-- A scan that asks for no cut: the activities judged and the memory of voice. -/
theorem judge_none {env : Env K} {s : LoopState K} {sc sc' : SilenceCut K}
    {activities : List Activity} (h : judge env s sc = (none, sc', activities)) :
    sc'.heardSinceCut = (sc.heardSinceCut || decide (.active ∈ activities)) := by
  unfold judge at h
  split_ifs at h
  · simp at h
  · exact (SilenceCut.scan_none h).2.2.2

/-- **The cut the strategy asks for** is a sample position of the window, and the scan restarts
there with no memory of voice. -/
theorem judge_some {env : Env K} {s : LoopState K} {sc sc' : SilenceCut K} {cut : Cut}
    {activities : List Activity} {stream : Bytes} (ht : s.window.Tracks stream)
    (h : judge env s sc = (some cut, sc', activities)) :
    ∃ p ≤ s.window.received, cut.at_ = secondsAt p ∧ sc'.scanned = p ∧
      sc'.heardSinceCut = false ∧ (cut.forced = true → p = s.window.received) := by
  unfold judge at h
  split_ifs at h with hforce
  · simp only [Prod.mk.injEq, Option.some.injEq] at h
    obtain ⟨rfl, rfl, -⟩ := h
    exact ⟨s.window.received, le_rfl, rfl, SilenceCut.markCut_scanned _ _, rfl, fun _ => rfl⟩
  · obtain ⟨i, hi, -, hat, hforced, hscanned, hheard⟩ := SilenceCut.scan_some h
    refine ⟨_, ?_, hat, hscanned, hheard, fun hf => absurd hf (by simp [hforced])⟩
    have hlen : (unscanned s sc).length
        = s.window.received - (s.window.retainedStart + sc.unscannedOffset s.window.start) := by
      unfold unscanned
      rw [List.length_map, RollingWindow.samples_first]
      exact_mod_cast ht.length_samples (Nat.le_add_right _ _) le_rfl
    have hframes : (i + 1) * FRAME_LEN ≤ (unscanned s sc).length :=
      (Nat.mul_le_mul_right _ hi).trans (Nat.div_mul_le_self _ _)
    have hpos : 0 < (i + 1) * FRAME_LEN := by simp [FRAME_LEN]
    omega

/-! ## Steps and runs -/

theorem step_observe (env : Env K) {s : LoopState K} {sc : SilenceCut K} (hpc : s.pc = .observe)
    (hs : s.strategy = .silenceCut sc) : step env s = observeStep env s sc := by
  simp only [step, hpc, hs]

theorem step_boundary_nil (env : Env K) {s : LoopState K} (hpc : s.pc = .boundary)
    (hp : s.pending = []) : step env s = { s with pc := .tick } := by
  simp only [step, hpc, if_pos hp]

theorem step_boundary (env : Env K) {s : LoopState K} (hpc : s.pc = .boundary)
    (hp : s.pending ≠ []) :
    step env s = { forceBoundary env s with pc := .fill, cutTaken := true } := by
  simp only [step, hpc, if_neg hp]

theorem step_tick_silence (env : Env K) {s : LoopState K} {sc : SilenceCut K} (hpc : s.pc = .tick)
    (hs : s.strategy = .silenceCut sc) :
    step env s = { silenceTick env s with pc := .chunk } := by
  simp only [step, hpc, hs]

theorem step_tick_agreement (env : Env K) {s : LoopState K} (hpc : s.pc = .tick)
    (hs : s.strategy = .localAgreement) :
    step env s = { agreementTick env s with pc := .chunk } := by
  simp only [step, hpc, hs]

theorem step_tail (env : Env K) {s : LoopState K} (hpc : s.pc = .tail) :
    step env s = resolveTail env s := by
  simp only [step, hpc]

theorem step_done (env : Env K) {s : LoopState K} (hpc : s.pc = .done) : step env s = s := by
  simp only [step, hpc]

theorem step_raised (env : Env K) {s : LoopState K} (hpc : s.pc = .raised) : step env s = s := by
  simp only [step, hpc]

/-- A tick goes back for the next chunk and touches neither the audio nor the result. -/
theorem step_tick (env : Env K) {s : LoopState K} (hpc : s.pc = .tick) :
    (step env s).pc = .chunk ∧ (step env s).audio = s.audio ∧ (step env s).pending = s.pending ∧
      (step env s).result = s.result := by
  unfold step
  rw [hpc]
  dsimp only
  split
  · have heq := LoopState.eq_of_core (silenceTick_core env s)
    rw [heq]
    exact ⟨rfl, rfl, rfl, rfl⟩
  · rcases agreementTick_frame env s with htick | ⟨tr, w, hyp, d, htick, -, -⟩
    · rw [htick]
      exact ⟨rfl, rfl, rfl, rfl⟩
    · rw [htick]
      exact ⟨rfl, rfl, rfl, rfl⟩

/-- A `fill` step raises on half a sample, and otherwise appends what fits. -/
theorem step_fill (env : Env K) {s : LoopState K} (hpc : s.pc = .fill) :
    (s.pending.length % 2 = 1 ∧ step env s = { s with pc := .raised }) ∨
      (s.pending.length % 2 = 0 ∧ step env s = { s with
        pc := afterFill s.strategy
        window := s.window.filled s.pending
        pending := s.pending.drop (s.window.room s.pending * 2) }) := by
  rcases s.window.fill_eq s.pending with ⟨hodd, e, hfill⟩ | ⟨heven, hfill⟩
  · exact Or.inl ⟨hodd, by simp only [step, hpc, hfill]⟩
  · exact Or.inr ⟨heven, by simp only [step, hpc, hfill]⟩


/-- A pass over the unscanned audio leaves a chunked strategy. -/
theorem observeStep_chunked (env : Env K) (s : LoopState K) (sc : SilenceCut K) :
    ∃ sc', (observeStep env s sc).strategy = .silenceCut sc' := by
  rcases hj : judge env s sc with ⟨asked, sc', acts⟩
  cases asked with
  | none =>
    rw [observeStep_none hj]
    exact ⟨sc', rfl⟩
  | some cut =>
    rw [observeStep_some hj]
    split_ifs
    · obtain ⟨tr, d, hcut, -⟩ := cutRegion_frame env (judged s sc' acts [.cut cut true])
        (toSamples cut.at_).toNat cut.forced (keepsOverlap env cut)
      rw [takeCut, hcut]
      exact ⟨sc', rfl⟩
    · exact ⟨sc', rfl⟩

/-- A chunked session stays chunked. -/
theorem step_chunked (env : Env K) :
    StepSystem.Keeps (step env) (fun s => ∃ sc, s.strategy = .silenceCut sc) := by
  rintro s ⟨sc, hs⟩
  cases hpc : s.pc with
  | chunk => cases haudio : s.audio <;> exact ⟨sc, by simp [step, hpc, haudio, hs]⟩
  | fill =>
    rcases step_fill env hpc with ⟨-, hstep⟩ | ⟨-, hstep⟩ <;>
      exact ⟨sc, by simp [hstep, hs]⟩
  | observe =>
    rw [step_observe _ hpc hs]
    exact observeStep_chunked env s sc
  | boundary =>
    by_cases hp : s.pending = []
    · rw [step_boundary_nil _ hpc hp]
      exact ⟨sc, hs⟩
    · rw [step_boundary _ hpc hp]
      obtain ⟨tr, d, hcut, -⟩ := cutRegion_frame env
        { s with
          strategy := .silenceCut (sc.markCut (secondsAt s.window.received))
          vadLog := s.vadLog ++ [.cut ⟨secondsAt s.window.received, true, false⟩ true] }
        s.window.received true true
      simp only [forceBoundary, hs, forceSilence, hcut]
      exact ⟨_, rfl⟩
  | tick =>
    have heq := LoopState.eq_of_core (silenceTick_core env s)
    rw [step_tick_silence _ hpc hs, heq]
    exact ⟨sc, hs⟩
  | tail =>
    obtain ⟨tr, d, htail, -⟩ := resolveTail_frame env s
    rw [step_tail _ hpc, htail]
    exact ⟨sc, hs⟩
  | done =>
    rw [step_done _ hpc]
    exact ⟨sc, hs⟩
  | raised =>
    rw [step_raised _ hpc]
    exact ⟨sc, hs⟩

@[simp] theorem run_zero (env : Env K) (s : LoopState K) : run env s 0 = s := rfl

theorem run_succ (env : Env K) (s : LoopState K) (n : ℕ) :
    run env s (n + 1) = step env (run env s n) :=
  Function.iterate_succ_apply' _ _ _

theorem session_succ (env : Env K) (strategy : Strategy K) (audio : List Bytes) (n : ℕ) :
    session env strategy audio (n + 1) = step env (session env strategy audio n) :=
  run_succ _ _ _

theorem run_add (env : Env K) (s : LoopState K) (m n : ℕ) :
    run env s (m + n) = run env (run env s m) n := by
  rw [run, Nat.add_comm, Function.iterate_add_apply]
  rfl

theorem session_add (env : Env K) (strategy : Strategy K) (audio : List Bytes) (m n : ℕ) :
    session env strategy audio (m + n) = run env (session env strategy audio m) n :=
  run_add _ _ _ _

/-- The control flow of `_run`. -/
inductive Goes : Pc → Pc → Prop
  | exhausted : Goes .chunk .tail
  | taken : Goes .chunk .fill
  | half : Goes .fill .raised
  | look : Goes .fill .observe
  | skip : Goes .fill .boundary
  | again : Goes .observe .observe
  | leave : Goes .observe .boundary
  | force : Goes .boundary .fill
  | rest : Goes .boundary .tick
  | back : Goes .tick .chunk
  | resolve : Goes .tail .done
  | finished : Goes .done .done
  | failed : Goes .raised .raised

theorem step_goes (env : Env K) (s : LoopState K) : Goes s.pc (step env s).pc := by
  cases hpc : s.pc with
  | chunk =>
    cases haudio : s.audio <;> simp only [step, hpc, haudio]
    · exact .exhausted
    · exact .taken
  | fill =>
    rcases step_fill env hpc with ⟨-, hstep⟩ | ⟨-, hstep⟩
    · rw [hstep]
      exact .half
    · rw [hstep]
      cases s.strategy
      · exact .skip
      · exact .look
  | observe =>
    cases hs : s.strategy with
    | localAgreement =>
      simp only [step, hpc, hs]
      exact .leave
    | silenceCut sc =>
      rw [step_observe env hpc hs]
      obtain ⟨-, -, -, hpc' | hpc'⟩ := observeStep_input env s sc
      · rw [hpc', hpc]
        exact .again
      · rw [hpc']
        exact .leave
  | boundary =>
    by_cases hp : s.pending = []
    · rw [step_boundary_nil env hpc hp]
      exact .rest
    · rw [step_boundary env hpc hp]
      exact .force
  | tick =>
    rw [(step_tick env hpc).1]
    exact .back
  | tail =>
    obtain ⟨tr, d, htail, -⟩ := resolveTail_frame env s
    rw [step_tail env hpc, htail]
    exact .resolve
  | done =>
    rw [step_done env hpc, hpc]
    exact .finished
  | raised =>
    rw [step_raised env hpc, hpc]
    exact .failed

/-- The loop goes to its tail when the audio is exhausted. -/
theorem step_spent (env : Env K) :
    StepSystem.Keeps (step env) (fun s => s.pc = .tail → s.audio = []) := by
  intro s _ htail
  have hgoes := step_goes env s
  rw [htail] at hgoes
  have hpc : s.pc = .chunk := by
    cases h : s.pc <;> rw [h] at hgoes <;> cases hgoes
  cases haudio : s.audio with
  | nil => simp [step, hpc, haudio]
  | cons data rest => simp [step, hpc, haudio] at htail

/-- A session that is done has resolved its tail, once. -/
theorem session_done (env : Env K) (strategy : Strategy K) (audio : List Bytes) {n : ℕ}
    (h : (session env strategy audio n).pc = .done) :
    ∃ m, (session env strategy audio m).pc = .tail ∧
      session env strategy audio n = resolveTail env (session env strategy audio m) := by
  induction n with
  | zero => simp [session, run, LoopState.init] at h
  | succ n ih =>
    rw [session_succ] at h ⊢
    have hgoes := step_goes env (session env strategy audio n)
    rw [h] at hgoes
    cases hpc : (session env strategy audio n).pc <;> rw [hpc] at hgoes <;> cases hgoes
    · exact ⟨n, hpc, step_tail env hpc⟩
    · rw [step_done env hpc]
      exact ih hpc

/-- The record of the voice detector is append-only. -/
theorem step_vadLog (env : Env K) (s : LoopState K) : s.vadLog <+: (step env s).vadLog := by
  cases hpc : s.pc with
  | chunk => cases haudio : s.audio <;> simp [step, hpc, haudio]
  | fill => rcases step_fill env hpc with ⟨-, hstep⟩ | ⟨-, hstep⟩ <;> rw [hstep]
  | observe =>
    cases hs : s.strategy with
    | localAgreement => simp [step, hpc, hs]
    | silenceCut sc =>
      rw [step_observe env hpc hs]
      rcases hj : judge env s sc with ⟨asked, sc', acts⟩
      cases asked with
      | none =>
        rw [observeStep_none hj]
        exact ⟨acts.map .frame ++ [], by simp [judged]⟩
      | some cut =>
        rw [observeStep_some hj]
        split_ifs
        · obtain ⟨tr, d, hcut, -⟩ := cutRegion_frame env (judged s sc' acts [.cut cut true])
            (toSamples cut.at_).toNat cut.forced (keepsOverlap env cut)
          rw [takeCut, hcut]
          exact ⟨acts.map .frame ++ [.cut cut true], by simp [judged]⟩
        · exact ⟨acts.map .frame ++ [.cut cut false], by simp [judged]⟩
  | boundary =>
    by_cases hp : s.pending = []
    · rw [step_boundary_nil env hpc hp]
    · rw [step_boundary env hpc hp]
      cases hs : s.strategy with
      | localAgreement =>
        obtain ⟨tr, d, hforce, -⟩ := forceAgreement_frame env s
        simp [forceBoundary, hs, hforce]
      | silenceCut sc =>
        obtain ⟨tr, d, hcut, -⟩ := cutRegion_frame env
          { s with
            strategy := .silenceCut (sc.markCut (secondsAt s.window.received))
            vadLog := s.vadLog ++ [.cut ⟨secondsAt s.window.received, true, false⟩ true] }
          s.window.received true true
        simp [forceBoundary, hs, forceSilence, hcut]
  | tick =>
    cases hs : s.strategy with
    | localAgreement =>
      rw [step_tick_agreement env hpc hs]
      rcases agreementTick_frame env s with htick | ⟨tr, w, hyp, d, htick, -, -⟩ <;> rw [htick]
    | silenceCut sc =>
      have heq := LoopState.eq_of_core (silenceTick_core env s)
      rw [step_tick_silence env hpc hs, heq]
  | tail =>
    obtain ⟨tr, d, htail, -⟩ := resolveTail_frame env s
    rw [step_tail env hpc, htail]
  | done => rw [step_done env hpc]
  | raised => rw [step_raised env hpc]

end

end Loop

end Myna
