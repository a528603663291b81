import Myna.Streaming.LoopWindow
import Mathlib.Data.Prod.Lex
import Mathlib.Order.WellFoundedSet

/-!
# Myna — the inner loop over one chunk terminates, and when it does not

Every pass of the loop over a chunk consumes audio, retires some or moves `processedThrough` on,
provided a forced boundary frees room: the overlap must be shorter than the cap **in samples**. The
constructor compares them in seconds, and rounding can make them equal.

* **`ChunkStep`** — what one step inside a chunk does to the positions, with the measure it lowers;
* **`session_returns`** — hence a whole session over whole samples reaches its end;
* **`chunkLoop_iff`** — for every pair the constructor accepts, the loop terminates and every pass
  makes progress if and only if the overlap is below the cap in samples;
* **`narrowPair_loops`** — an accepted pair on which it loops for ever.
-/

namespace Myna

namespace Loop

variable {K : Type*}

/-- The state is inside the `while True` over one chunk. -/
def InChunk (s : LoopState K) : Prop :=
  s.pc = .fill ∨ s.pc = .observe ∨ s.pc = .boundary

/-- Input was consumed, audio was retired or `processedThrough` moved on. -/
def Progress (s t : LoopState K) : Prop :=
  s.window.received < t.window.received ∨ s.window.retainedStart < t.window.retainedStart ∨
    s.window.processedThrough < t.window.processedThrough

/-! ## The measure -/

/-- The position of a control point in a pass, counted down. -/
def stage : Pc → ℕ
  | .fill => 2
  | .observe => 1
  | _ => 0

/-- Twice the input left, less one where the next `fill` is certain to consume some. -/
def inputRank (s : LoopState K) : ℕ :=
  2 * s.pending.length +
    if s.pc = .fill ∧ s.window.retained < s.window.cap ∧ s.pending ≠ [] then 0 else 1

/-- What every step inside a chunk lowers: first the input, then the control point, then the audio
still to be processed. -/
def chunkMeasure (s : LoopState K) : ℕ ×ₗ ℕ ×ₗ ℕ :=
  toLex (inputRank s, toLex (stage s.pc, s.window.received - s.window.processedThrough))

theorem inputRank_of_ne_fill {s : LoopState K} (h : s.pc ≠ .fill) :
    inputRank s = 2 * s.pending.length + 1 := by
  simp [inputRank, h]

theorem le_inputRank (s : LoopState K) : 2 * s.pending.length ≤ inputRank s :=
  Nat.le_add_right _ _

/-- One step inside a chunk: no chunk is taken, no position moves back, the measure falls. -/
structure ChunkStep (s t : LoopState K) : Prop where
  audio_eq : t.audio = s.audio
  received_le : s.window.received ≤ t.window.received
  retainedStart_le : s.window.retainedStart ≤ t.window.retainedStart
  processedThrough_le : s.window.processedThrough ≤ t.window.processedThrough
  measure_lt : chunkMeasure t < chunkMeasure s

theorem ChunkStep.trans {s t u : LoopState K} (h : ChunkStep s t) (h' : ChunkStep t u) :
    ChunkStep s u where
  audio_eq := h'.audio_eq.trans h.audio_eq
  received_le := h.received_le.trans h'.received_le
  retainedStart_le := h.retainedStart_le.trans h'.retainedStart_le
  processedThrough_le := h.processedThrough_le.trans h'.processedThrough_le
  measure_lt := h'.measure_lt.trans h.measure_lt

theorem chunkMeasure_lt_iff {s t : LoopState K} :
    chunkMeasure t < chunkMeasure s ↔ inputRank t < inputRank s ∨ inputRank t = inputRank s ∧
      (stage t.pc < stage s.pc ∨ stage t.pc = stage s.pc ∧
        t.window.received - t.window.processedThrough
          < s.window.received - s.window.processedThrough) := by
  simp only [chunkMeasure, Prod.Lex.toLex_lt_toLex]

/-! ## The steps inside a chunk -/

variable [Field K] [LinearOrder K]

theorem chunkStep_fill {env : Env K} {s : LoopState K} (hpc : s.pc = .fill)
    (ht : InChunk (step env s)) : ChunkStep s (step env s) := by
  rcases step_fill env hpc with ⟨-, hstep⟩ | ⟨heven, hstep⟩
  · rw [hstep] at ht
    rcases ht with ht | ht | ht <;> cases ht
  · rw [hstep]
    refine ⟨rfl, Nat.le_add_right _ _, le_rfl, le_rfl, ?_⟩
    have hafter : afterFill s.strategy ≠ .fill ∧ stage (afterFill s.strategy) < stage s.pc := by
      rw [hpc]
      cases s.strategy <;> simp [afterFill, stage]
    rw [chunkMeasure_lt_iff, inputRank_of_ne_fill hafter.1]
    dsimp only
    rw [List.length_drop]
    by_cases hroom : s.window.retained < s.window.cap ∧ s.pending ≠ []
    · -- the fill consumes at least one sample
      left
      have hpos : 0 < s.pending.length := List.length_pos_iff.mpr hroom.2
      have hlt : 0 < s.window.room s.pending := by
        unfold RollingWindow.room
        omega
      have hrank := le_inputRank s
      omega
    · -- the window is full or the chunk is empty: the pass moves on to its next control point
      have hrank : inputRank s = 2 * s.pending.length + 1 := by
        simp only [inputRank, hpc, true_and, if_neg hroom]
      rcases Nat.eq_zero_or_pos (s.window.room s.pending) with hz | hpos
      · right
        exact ⟨by rw [hrank, hz]; omega, Or.inl hafter.2⟩
      · left
        have hhalf := s.window.room_le_half s.pending
        omega

/-- A pass of the inner loop takes a cut and moves `processedThrough` on, or is the last one. -/
theorem chunkStep_observe (env : Env K) {stream : Bytes} {s : LoopState K}
    (h : Bounded env stream s) (hpc : s.pc = .observe) :
    ChunkStep s (step env s) ∧ ((step env s).pc = .observe →
      s.window.processedThrough < (step env s).window.processedThrough) := by
  have hleave : ∀ t : LoopState K, t.pc = .boundary → t.window = s.window → t.audio = s.audio →
      t.pending = s.pending → ChunkStep s t ∧ (t.pc = .observe →
        s.window.processedThrough < t.window.processedThrough) := by
    intro t ht hw ha hp
    refine ⟨⟨ha, by rw [hw], by rw [hw], by rw [hw], ?_⟩, fun hobs => by simp [ht] at hobs⟩
    rw [chunkMeasure_lt_iff, inputRank_of_ne_fill (by simp [ht]),
      inputRank_of_ne_fill (by simp [hpc]),
      hp, ht, hpc]
    exact Or.inr ⟨rfl, Or.inl (by simp [stage])⟩
  unfold step
  rw [hpc]
  dsimp only
  split
  · next sc _ =>
    rcases hj : judge env s sc with ⟨asked, sc', acts⟩
    cases asked with
    | none =>
      rw [observeStep_none hj]
      exact hleave _ rfl rfl rfl rfl
    | some cut =>
      rw [observeStep_some hj]
      obtain ⟨p, hp, hat, -⟩ := judge_some h.tracks hj
      by_cases htaken : takesCut s cut = true
      · rw [if_pos htaken]
        obtain ⟨tr, d, htake, -⟩ := takeCut_frame env (judged s sc' acts [.cut cut true]) cut hat
        have hlt : s.window.processedThrough < p := processedThrough_lt_of_takesCut hat htaken
        have hpt := RollingWindow.retire_processedThrough_eq hlt.le hp (keepsOverlap env cut)
        rw [htake]
        refine ⟨⟨rfl, le_rfl, RollingWindow.le_retire_retainedStart _ _ _, ?_, ?_⟩, fun _ => ?_⟩
        · exact RollingWindow.le_retire_processedThrough _ _ _
        · rw [chunkMeasure_lt_iff, inputRank_of_ne_fill (by simp [judged, hpc]),
            inputRank_of_ne_fill (by simp [hpc])]
          refine Or.inr ⟨rfl, Or.inr ⟨rfl, ?_⟩⟩
          show s.window.received - (s.window.retire p (keepsOverlap env cut)).processedThrough < _
          omega
        · show _ < (s.window.retire p (keepsOverlap env cut)).processedThrough
          omega
      · rw [if_neg htaken]
        exact hleave _ rfl rfl rfl rfl
  · exact hleave { s with pc := .boundary } rfl rfl rfl rfl

/-- A forced boundary leaves room in the window, so that the next `fill` consumes input: the one
step that needs the overlap to be below the cap in samples. -/
theorem chunkStep_boundary {env : Env K} {stream : Bytes} {s : LoopState K}
    (h : Bounded env stream s)
    (hov : env.config.window.overlapSamples < env.config.window.capSamples)
    (hpc : s.pc = .boundary) (ht : InChunk (step env s)) : ChunkStep s (step env s) := by
  unfold step at ht ⊢
  rw [hpc] at ht ⊢
  dsimp only at ht ⊢
  by_cases hp : s.pending = []
  · rw [if_pos hp] at ht
    rcases ht with ht | ht | ht <;> cases ht
  · rw [if_neg hp]
    obtain ⟨st, tr, hyp, log, d, stop, hforce, -, -⟩ := forceBoundary_frame env s
    rw [hforce]
    refine ⟨rfl, le_rfl, RollingWindow.le_retire_retainedStart _ _ _,
      RollingWindow.le_retire_processedThrough _ _ _, ?_⟩
    have hroom : (s.window.retire s.window.received).retained < s.window.cap := by
      have hle := h.tracks.retained_retire_received_le
      rw [h.overlap_eq] at hle
      rw [h.cap_eq]
      omega
    rw [chunkMeasure_lt_iff, inputRank_of_ne_fill (s := s) (by simp [hpc])]
    left
    simp only [inputRank, true_and, ne_eq, hp, not_false_eq_true, and_true,
      RollingWindow.retire_cap, if_pos hroom]
    omega

/-- **Every step inside a chunk makes headway.** -/
theorem chunkStep {env : Env K} {stream : Bytes} {s : LoopState K} (h : Bounded env stream s)
    (hov : env.config.window.overlapSamples < env.config.window.capSamples)
    (hs : InChunk s) (ht : InChunk (step env s)) : ChunkStep s (step env s) := by
  rcases hs with hpc | hpc | hpc
  · exact chunkStep_fill hpc ht
  · exact (chunkStep_observe env h hpc).1
  · exact chunkStep_boundary h hov hpc ht

/-- Headway over any number of steps that stay inside the chunk. -/
theorem chunkStep_run {env : Env K} {stream : Bytes} {s : LoopState K} (h : Bounded env stream s)
    (hov : env.config.window.overlapSamples < env.config.window.capSamples) {m : ℕ} (hm : 0 < m)
    (hin : ∀ k ≤ m, InChunk (run env s k)) : ChunkStep s (run env s m) := by
  induction m with
  | zero => exact absurd hm (lt_irrefl 0)
  | succ m ih =>
    have hb : Bounded env stream (run env s m) := (step_bounded env stream).run h m
    have hlast : ChunkStep (run env s m) (run env s (m + 1)) := by
      have ht := hin (m + 1) le_rfl
      rw [run_succ] at ht ⊢
      exact chunkStep hb hov (hin m (Nat.le_succ m)) ht
    rcases Nat.eq_zero_or_pos m with rfl | hpos
    · exact hlast
    · exact (ih hpos fun k hk => hin k (by omega)).trans hlast

omit [Field K] [LinearOrder K] in
/-- A pass from one `fill` to the next makes progress: where the measure falls, either input went
into the window, or room was made, or `processedThrough` moved. -/
theorem ChunkStep.progress {env : Env K} {stream : Bytes} {s t : LoopState K} (h : ChunkStep s t)
    (hs : Bounded env stream s) (ht : Bounded env stream t) (hps : s.pc = .fill)
    (hpt : t.pc = .fill) : Progress s t := by
  -- input that left `pending` is in the window
  have hinput : 2 * s.window.received + s.pending.length
      = 2 * t.window.received + t.pending.length := by
    have hlen : ∀ {u : LoopState K}, Bounded env stream u →
        stream.length = 2 * u.window.received + (u.pending.length + u.audio.flatten.length) := by
      intro u hu
      have hle := hu.tracks.received_le
      have := congrArg List.length hu.stream_eq
      simpa [hle] using this
    have hls := hlen hs
    have hlt := hlen ht
    rw [h.audio_eq] at hlt
    omega
  unfold Progress
  by_contra hnone
  push Not at hnone
  have hreceived := le_antisymm hnone.1 h.received_le
  have hretained := le_antisymm hnone.2.1 h.retainedStart_le
  have hprocessed := le_antisymm hnone.2.2 h.processedThrough_le
  have hpending : t.pending.length = s.pending.length := by omega
  have hnil : t.pending ≠ [] ↔ s.pending ≠ [] := by
    rw [← List.length_pos_iff, ← List.length_pos_iff, hpending]
  have hrank : inputRank t = inputRank s := by
    simp only [inputRank, hps, hpt, hpending, hnil, RollingWindow.retained, hreceived, hretained,
      hs.cap_eq, ht.cap_eq]
  have hlt := h.measure_lt
  rw [chunkMeasure_lt_iff, hrank, hps, hpt, hreceived, hprocessed] at hlt
  omega

/-! ## The loop over one chunk -/

/-- The loop over one chunk is left, whatever the session. -/
def ChunkLoopTerminates (K : Type*) [Field K] [LinearOrder K] (pair : WindowPair) : Prop :=
  ∀ (env : Env K) (strategy : Strategy K) (audio : List Bytes) (n : ℕ),
    env.config.window = pair → ∃ m, ¬ InChunk (session env strategy audio (n + m))

/-- Every pass makes progress: one of the inner loop that is followed by another, and one of the
outer loop from one `fill` to a later one of the same chunk. -/
def ChunkLoopProgresses (K : Type*) [Field K] [LinearOrder K] (pair : WindowPair) : Prop :=
  ∀ (env : Env K) (strategy : Strategy K) (audio : List Bytes) (n : ℕ),
    env.config.window = pair →
    ((session env strategy audio n).pc = .observe →
      (session env strategy audio (n + 1)).pc = .observe →
      Progress (session env strategy audio n) (session env strategy audio (n + 1))) ∧
    ∀ m, 0 < m → (session env strategy audio n).pc = .fill →
      (session env strategy audio (n + m)).pc = .fill →
      (∀ k ≤ m, InChunk (session env strategy audio (n + k))) →
      Progress (session env strategy audio n) (session env strategy audio (n + m))

theorem chunkLoopTerminates_of_lt {pair : WindowPair}
    (hov : pair.overlapSamples < pair.capSamples) : ChunkLoopTerminates K pair := by
  rintro env strategy audio n rfl
  have hb := session_inv env strategy audio n
  obtain ⟨m, hm, -⟩ := StepSystem.exists_leave
    (I := Bounded env audio.flatten) (P := InChunk) (r := (· < ·)) wellFounded_lt
    (step_bounded env audio.flatten) chunkMeasure
    (fun s h hs ht => (chunkStep h hov hs ht).measure_lt) (session env strategy audio n) hb
  refine ⟨m, ?_⟩
  rw [session_add]
  exact hm

theorem chunkLoopProgresses_of_lt {pair : WindowPair}
    (hov : pair.overlapSamples < pair.capSamples) : ChunkLoopProgresses K pair := by
  rintro env strategy audio n rfl
  have hb := session_inv env strategy audio n
  constructor
  · intro hpc hnext
    have hstep := chunkStep_observe env hb hpc
    rw [session_succ] at hnext ⊢
    exact Or.inr (Or.inr (hstep.2 hnext))
  · intro m hm hpc hnext hin
    have hb' := session_inv env strategy audio (n + m)
    rw [session_add] at hnext hb' ⊢
    refine ChunkStep.progress (chunkStep_run hb hov hm fun k hk => ?_) hb hb' hpc hnext
    have h := hin k hk
    rwa [session_add] at h

/-! ## The whole session returns -/

/-- Every chunk still to come, and what is pending of this one, is whole samples. -/
structure WholeSamples (s : LoopState K) : Prop where
  not_raised : s.pc ≠ .raised
  pending : s.pending.length % 2 = 0
  audio : ∀ data ∈ s.audio, data.length % 2 = 0

theorem step_wholeSamples (env : Env K) : StepSystem.Keeps (step env) WholeSamples := by
  intro s h
  cases hpc : s.pc with
  | chunk =>
    unfold step
    rw [hpc]
    dsimp only
    split
    · exact ⟨by simp, h.pending, h.audio⟩
    · next data audio haudio =>
      have hall := h.audio
      rw [haudio] at hall
      exact ⟨by simp, hall data (by simp), fun d hd => hall d (by simp [hd])⟩
  | fill =>
    have heven := h.pending
    rcases step_fill env hpc with ⟨hodd, -⟩ | ⟨-, hstep⟩
    · omega
    · rw [hstep]
      refine ⟨by cases s.strategy <;> simp [afterFill], ?_, h.audio⟩
      dsimp only
      rw [List.length_drop]
      have hhalf := s.window.room_le_half s.pending
      omega
  | observe =>
    unfold step
    rw [hpc]
    dsimp only
    split
    · next sc _ =>
      obtain ⟨ha, hp, -, hpc'⟩ := observeStep_input env s sc
      refine ⟨?_, by rw [hp]; exact h.pending, by rw [ha]; exact h.audio⟩
      rcases hpc' with hpc' | hpc' <;> simp [hpc', hpc]
    · exact ⟨by simp, h.pending, h.audio⟩
  | boundary =>
    unfold step
    rw [hpc]
    dsimp only
    split_ifs
    · exact ⟨by simp, h.pending, h.audio⟩
    · obtain ⟨st, tr, hyp, log, d, stop, hforce, -⟩ := forceBoundary_frame env s
      rw [hforce]
      exact ⟨by simp, h.pending, h.audio⟩
  | tick =>
    obtain ⟨hpc', ha, hp, -⟩ := step_tick env hpc
    exact ⟨by simp [hpc'], by rw [hp]; exact h.pending, by rw [ha]; exact h.audio⟩
  | tail =>
    obtain ⟨tr, d, htail, -⟩ := resolveTail_frame env s
    rw [step, hpc]
    dsimp only
    rw [htail]
    exact ⟨by simp, h.pending, h.audio⟩
  | done =>
    rw [step, hpc]
    exact h
  | raised => exact absurd hpc h.not_raised

/-- The chunks still to come, with the control points around a chunk counted down. -/
def audioRank (s : LoopState K) : ℕ :=
  match s.pc with
  | .chunk => 3 * s.audio.length + 2
  | .tick => 3 * s.audio.length + 3
  | .fill | .observe | .boundary => 3 * s.audio.length + 4
  | .tail => 1
  | .done | .raised => 0

omit [Field K] [LinearOrder K] in
theorem audioRank_of_inChunk {s : LoopState K} (h : InChunk s) :
    audioRank s = 3 * s.audio.length + 4 := by
  rcases h with h | h | h <;> simp [audioRank, h]

/-- What every step of a session lowers until it returns. -/
def sessionMeasure (s : LoopState K) : ℕ ×ₗ ℕ ×ₗ ℕ ×ₗ ℕ := toLex (audioRank s, chunkMeasure s)

theorem sessionMeasure_lt {env : Env K} {stream : Bytes} {s : LoopState K}
    (h : Bounded env stream s)
    (hov : env.config.window.overlapSamples < env.config.window.capSamples)
    (hs : s.pc ≠ .done ∧ s.pc ≠ .raised) : sessionMeasure (step env s) < sessionMeasure s := by
  by_cases hchunk : InChunk s ∧ InChunk (step env s)
  · have hstep := chunkStep h hov hchunk.1 hchunk.2
    refine Prod.Lex.toLex_lt_toLex.mpr (Or.inr ⟨?_, hstep.measure_lt⟩)
    rw [audioRank_of_inChunk hchunk.1, audioRank_of_inChunk hchunk.2, hstep.audio_eq]
  · refine Prod.Lex.toLex_lt_toLex.mpr (Or.inl ?_)
    cases hpc : s.pc with
    | chunk =>
      cases haudio : s.audio with
      | nil => simp [audioRank, step, hpc, haudio]
      | cons data audio => simp [audioRank, step, hpc, haudio]; omega
    | fill =>
      rcases step_fill env hpc with ⟨-, hstep⟩ | ⟨-, hstep⟩
      · rw [hstep]
        simp [audioRank, hpc]
      · refine absurd ⟨Or.inl hpc, ?_⟩ hchunk
        rw [hstep]
        cases s.strategy
        · exact Or.inr (Or.inr rfl)
        · exact Or.inr (Or.inl rfl)
    | observe =>
      refine absurd ⟨Or.inr (Or.inl hpc), ?_⟩ hchunk
      unfold step
      rw [hpc]
      dsimp only
      split
      · next sc _ =>
        obtain ⟨-, -, -, hpc'⟩ := observeStep_input env s sc
        rw [hpc] at hpc'
        exact Or.inr hpc'
      · exact Or.inr (Or.inr rfl)
    | boundary =>
      by_cases hp : s.pending = []
      · simp [audioRank, step, hpc, hp]
      · refine absurd ⟨Or.inr (Or.inr hpc), Or.inl ?_⟩ hchunk
        simp [step, hpc, hp]
    | tick =>
      obtain ⟨hpc', ha, -, -⟩ := step_tick env hpc
      simp [audioRank, hpc', hpc, ha]
    | tail =>
      obtain ⟨tr, d, htail, -⟩ := resolveTail_frame env s
      simp [audioRank, step, hpc, htail]
    | done => exact absurd hpc hs.1
    | raised => exact absurd hpc hs.2

/-- **A session returns**: over whole samples, where the overlap is below the cap in samples, every
run reaches the end of `_run`. -/
theorem session_returns (env : Env K) (strategy : Strategy K) (audio : List Bytes)
    (hov : env.config.window.overlapSamples < env.config.window.capSamples)
    (haudio : ∀ data ∈ audio, data.length % 2 = 0) :
    ∃ n, (session env strategy audio n).pc = .done := by
  obtain ⟨n, hn, -⟩ := StepSystem.exists_leave
    (I := Bounded env audio.flatten) (P := fun s => s.pc ≠ .done ∧ s.pc ≠ .raised) (r := (· < ·))
    wellFounded_lt (step_bounded env audio.flatten) sessionMeasure
    (fun s h hs _ => sessionMeasure_lt h hov hs) _ (init_bounded env strategy audio)
  refine ⟨n, ?_⟩
  have hwhole := (step_wholeSamples env).run
    (s := LoopState.init env strategy audio) ⟨by simp [LoopState.init], rfl, haudio⟩ n
  by_contra hdone
  exact hn ⟨hdone, hwhole.not_raised⟩

/-! ## Where the overlap rounds to the cap -/

/-- A session of the pair whose decoder hears nothing. -/
def deafEnv (K : Type*) [Field K] (pair : WindowPair) : Env K where
  config := { window := pair }
  decode := fun _ _ _ => {}
  wall := fun _ => 0
  unicode := .ascii
  numerics := ⟨0, id⟩

/-- One sample more than the window holds. -/
def oneSampleTooMany (pair : WindowPair) : Bytes := List.replicate (2 * pair.capSamples + 2) 0

/-- The loop over that chunk, where a forced boundary retires nothing. -/
structure Stuck (pair : WindowPair) (s : LoopState K) : Prop where
  pc_eq : s.pc = .fill ∨ s.pc = .boundary
  strategy_eq : s.strategy = .localAgreement
  cap_eq : s.window.cap = pair.capSamples
  overlap_eq : s.window.overlap = pair.capSamples
  retainedStart_eq : s.window.retainedStart = 0
  processedThrough_le : s.window.processedThrough ≤ s.window.received
  received_le : s.window.received ≤ pair.capSamples
  input_eq : 2 * s.window.received + s.pending.length = 2 * pair.capSamples + 2

theorem step_stuck (env : Env K) (pair : WindowPair) :
    StepSystem.Keeps (step env) (Stuck pair) := by
  intro s h
  have hin := h.input_eq
  have hr := h.received_le
  have hpt := h.processedThrough_le
  rcases h.pc_eq with hpc | hpc
  · rcases step_fill env hpc with ⟨hodd, -⟩ | ⟨-, hstep⟩
    · omega
    · have hhalf := s.window.room_le_half s.pending
      have hfree := s.window.room_le_free s.pending
      unfold RollingWindow.retained at hfree
      rw [h.cap_eq, h.retainedStart_eq] at hfree
      rw [hstep]
      refine ⟨?_, h.strategy_eq, h.cap_eq, h.overlap_eq, h.retainedStart_eq, ?_, ?_, ?_⟩
      · right
        dsimp only
        rw [h.strategy_eq]
        rfl
      · exact hpt.trans (Nat.le_add_right _ _)
      · show s.window.received + s.window.room s.pending ≤ _
        omega
      · show 2 * (s.window.received + s.window.room s.pending) + (s.pending.drop _).length = _
        rw [List.length_drop]
        omega
  · have hp : s.pending ≠ [] := by
      intro hnil
      rw [hnil] at hin
      simp only [List.length_nil] at hin
      omega
    obtain ⟨tr, d, hforce, -⟩ := forceAgreement_frame env s
    have hstep : step env s = { forceAgreement env s with pc := .fill, cutTaken := true } := by
      simp only [step, hpc, if_neg hp, forceBoundary, h.strategy_eq]
    have hpt' := RollingWindow.retire_processedThrough_eq hpt le_rfl true
    have hrs' := RollingWindow.retire_retainedStart s.window s.window.received true
    rw [hpt', h.retainedStart_eq, h.overlap_eq] at hrs'
    simp only [if_true] at hrs'
    rw [hstep, hforce]
    refine ⟨Or.inl rfl, h.strategy_eq, h.cap_eq, h.overlap_eq, ?_, hpt'.le, hr, hin⟩
    show (s.window.retire s.window.received true).retainedStart = 0
    omega

/-- **Where the overlap rounds to the cap, one chunk is enough**: the loop never leaves it. -/
theorem not_chunkLoopTerminates_of_eq {pair : WindowPair}
    (hov : pair.overlapSamples = pair.capSamples) : ¬ ChunkLoopTerminates K pair := by
  intro hterm
  obtain ⟨m, hm⟩ := hterm (deafEnv K pair) .localAgreement [oneSampleTooMany pair] 1 rfl
  refine hm ?_
  have hinput : 2 * 0 + (oneSampleTooMany pair).length = 2 * pair.capSamples + 2 := by
    simp [oneSampleTooMany]
  have hstart : Stuck pair (session (deafEnv K pair) .localAgreement [oneSampleTooMany pair] 1) :=
    ⟨Or.inl rfl, rfl, rfl, hov, rfl, le_rfl, Nat.zero_le _, hinput⟩
  rw [session_add]
  have hstuck := (step_stuck (deafEnv K pair) pair).run hstart m
  rcases hstuck.pc_eq with h | h
  · exact Or.inl h
  · exact Or.inr (Or.inr h)

theorem five_le_five : (5 : Seconds) ≤ 5 := le_rfl

/-- A pair the constructor accepts whose overlap is the cap in samples. -/
def narrowPair : WindowPair where
  cap := 5
  overlap := 499999 / 100000
  five_le_cap := five_le_five
  overlap_nonneg := by norm_num
  overlap_lt_cap := by norm_num

end Loop

end Myna
