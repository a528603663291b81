import Myna.Streaming.Levels
import Myna.Streaming.LoopWindow

/-!
# Myna — passes of the loop over a chunk that fits the window

Where a chunk fits under the cap, the loop fills the window once, looks at it until the strategy
asks for no cut it takes, and goes back for the next chunk. The steps of such a pass are composed
here once.

* **`run_take`** — from the chunk to the filled window;
* **`run_take_cut`** — one cut taken;
* **`run_leave`** — the last look, and back.
-/

namespace Myna

namespace Loop

variable {K : Type*} [Field K] [LinearOrder K]

/-! ## What the detector has not seen -/

omit [LinearOrder K] in
/-- The samples a session has not scanned are those of the stream from the scan position on. -/
theorem unscanned_eq {s : LoopState K} {sc : SilenceCut K} {stream : Bytes}
    (ht : s.window.Tracks stream) (hrs : s.window.retainedStart ≤ sc.scanned) :
    sc.unscannedOffset s.window.start = sc.scanned - s.window.retainedStart ∧
      unscanned s sc
        = ((levels stream).drop sc.scanned).take (s.window.received - sc.scanned) := by
  have hoff : sc.unscannedOffset s.window.start = sc.scanned - s.window.retainedStart := by
    simp only [SilenceCut.unscannedOffset, RollingWindow.start, toSamples_secondsAt,
      Int.toNat_natCast, max_eq_left hrs]
  refine ⟨hoff, ?_⟩
  have hpos : s.window.retainedStart + (sc.scanned - s.window.retainedStart) = sc.scanned :=
    Nat.add_sub_cancel' hrs
  have hslice := ht.samples_eq hrs (le_refl s.window.received)
  unfold unscanned
  rw [hoff, RollingWindow.samples_first]
  have hcast : (s.window.retainedStart : ℤ) + ((sc.scanned - s.window.retainedStart : ℕ) : ℤ)
      = (sc.scanned : ℤ) := by omega
  rw [hcast, hslice, levels, ← List.map_drop, ← List.map_take, List.drop_take]

/-! ## The steps of a pass -/

/-- From a chunk that fits to the filled window. -/
theorem run_take (env : Env K) {s : LoopState K} {data : Bytes} {rest : List Bytes}
    (hpc : s.pc = .chunk) (haudio : s.audio = data :: rest) (heven : data.length % 2 = 0)
    (hfits : data.length / 2 ≤ s.window.cap - s.window.retained) :
    run env s 2 = { s with
      pc := afterFill s.strategy
      audio := rest
      pending := []
      cutTaken := false
      window := s.window.filled data } := by
  have hchunk : step env s
      = { s with pc := .fill, audio := rest, pending := data, cutTaken := false } := by
    simp only [step, hpc, haudio]
  have hroom : s.window.room data = data.length / 2 := min_eq_left hfits
  have hdrop : data.drop (s.window.room data * 2) = [] := by
    rw [hroom]
    exact List.drop_of_length_le (by omega)
  rw [run_succ, run_succ, run_zero, hchunk]
  rcases step_fill env (s := { s with
    pc := .fill, audio := rest, pending := data, cutTaken := false }) rfl with
    ⟨hodd, -⟩ | ⟨-, hstep⟩
  · dsimp only at hodd
    omega
  · rw [hstep]
    simp only [hdrop]

/-- One look that takes the cut it asks for. -/
theorem run_take_cut {env : Env K} {s : LoopState K} {sc sc' : SilenceCut K} {cut : Cut}
    {activities : List Activity} (hpc : s.pc = .observe) (hs : s.strategy = .silenceCut sc)
    (hj : judge env s sc = (some cut, sc', activities)) (htakes : takesCut s cut = true) :
    run env s 1 = takeCut env (judged s sc' activities [.cut cut true]) cut := by
  rw [run_succ, run_zero, step_observe _ hpc hs, observeStep_some hj, if_pos htakes]

/-- The last look, which takes no cut, and back for the next chunk. -/
theorem run_leave {env : Env K} {s : LoopState K} {sc sc' : SilenceCut K} {asked : Option Cut}
    {activities : List Activity} (hpc : s.pc = .observe) (hs : s.strategy = .silenceCut sc)
    (hp : s.pending = []) (hj : judge env s sc = (asked, sc', activities))
    (hrefused : ∀ cut ∈ asked, takesCut s cut = false) :
    ∃ d, run env s 3 = { judged s sc' activities (asked.toList.map (fun cut => .cut cut false)) with
      pc := .chunk
      display := d } := by
  have hlook : observeStep env s sc
      = { judged s sc' activities (asked.toList.map (fun cut => .cut cut false)) with
          pc := .boundary } := by
    cases asked with
    | none => exact observeStep_none hj
    | some cut =>
      rw [observeStep_some hj, if_neg (by rw [hrefused cut rfl]; exact Bool.false_ne_true)]
      rfl
  have htick := step_boundary_nil env (s := { judged s sc' activities
    (asked.toList.map (fun cut => .cut cut false)) with pc := .boundary }) rfl hp
  have hback := step_tick_silence env (s := { judged s sc' activities
    (asked.toList.map (fun cut => .cut cut false)) with pc := .tick }) rfl rfl
  rw [LoopState.eq_of_core (silenceTick_core env _)] at hback
  rw [run_succ, run_succ, run_succ, run_zero, step_observe env hpc hs, hlook, htick]
  exact ⟨_, hback⟩

/-! ## The end of the audio -/

omit [Field K] [LinearOrder K] in
/-- When the end of the audio decodes nothing. -/
theorem decodesTail_eq_false_iff {env : Env K} {s : LoopState K} {sc : SilenceCut K}
    (hs : s.strategy = .silenceCut sc) :
    decodesTail env s = false ↔ s.window.received ≤ s.window.processedThrough ∨
      (0 < s.window.processedThrough ∧ s.window.processedThrough ≤ s.window.retainedStart ∧
        sc.heardSinceCut = false) ∨
      (s.window.processedThrough = 0 ∧ s.window.windowSeconds < env.config.minUtterance) := by
  simp only [decodesTail, silentRemainder, hs, Bool.and_eq_false_iff, Bool.or_eq_false_iff,
    Bool.not_eq_false', decide_eq_false_iff_not, Bool.and_eq_true, decide_eq_true_iff,
    Bool.not_eq_true', not_lt, not_le, ne_eq, not_not]
  tauto

/-- At its tail a session has received the whole stream. -/
theorem received_of_tail (env : Env K) (strategy : Strategy K) (audio : List Bytes) {n : ℕ}
    (hpc : (session env strategy audio n).pc = .tail) :
    (session env strategy audio n).window.received = audio.flatten.length / 2 := by
  have hb := session_inv env strategy audio n
  have haudio : (session env strategy audio n).audio = [] :=
    (step_spent env).run (s := LoopState.init env strategy audio) (by simp [LoopState.init]) n hpc
  have hstream := congrArg List.length hb.stream_eq
  rw [hb.idle (Or.inr (Or.inr hpc)), haudio] at hstream
  have hle := hb.tracks.received_le
  simp only [List.flatten_nil, List.append_nil, List.length_take] at hstream
  omega

/-! ## Between two chunks -/

/-- What the strategy makes of the window `[retainedStart, received)` of a stream. -/
def judgeStream (num : Numerics K) (stream : Bytes) (sc : SilenceCut K)
    (retainedStart received : ℕ) : Option Cut × SilenceCut K × List Activity :=
  if toSamples sc.forceCut ≤ (received : ℤ) - retainedStart then
    (some ⟨secondsAt received, true, false⟩, sc.markCut (secondsAt received), [])
  else
    SilenceCut.scan num retainedStart ((received - sc.scanned) / FRAME_LEN)
      (sc.scanned - retainedStart)
        (((levels stream).drop sc.scanned).take (received - sc.scanned)) sc

theorem judge_eq_judgeStream (env : Env K) {s : LoopState K} {sc : SilenceCut K} {stream : Bytes}
    (ht : s.window.Tracks stream) (hrs : s.window.retainedStart ≤ sc.scanned) :
    judge env s sc
      = judgeStream env.numerics stream sc s.window.retainedStart s.window.received := by
  obtain ⟨hoff, hunscanned⟩ := unscanned_eq ht hrs
  have hlen : (unscanned s sc).length = s.window.received - sc.scanned := by
    have hrec := ht.received_le
    rw [hunscanned, List.length_take, List.length_drop, length_levels]
    omega
  unfold judge judgeStream
  rw [hlen, hoff, hunscanned]
  rfl

/-- The state stands at `pc` with nothing pending, `rest` to come and the window at the given
positions. -/
structure Stands (env : Env K) (stream : Bytes) (pc : Pc) (s : LoopState K) (rest : List Bytes)
    (sc : SilenceCut K) (log : List VadEvent) (retainedStart processedThrough received : ℕ) :
    Prop where
  bounded : Bounded env stream s
  pc_eq : s.pc = pc
  pending : s.pending = []
  audio : s.audio = rest
  strategy : s.strategy = .silenceCut sc
  vadLog : s.vadLog = log
  retainedStart_eq : s.window.retainedStart = retainedStart
  processedThrough_eq : s.window.processedThrough = processedThrough
  received_eq : s.window.received = received

omit [Field K] [LinearOrder K] in
theorem init_stands (env : Env K) (sc : SilenceCut K) (audio : List Bytes) :
    Stands env audio.flatten .chunk (LoopState.init env (.silenceCut sc) audio) audio sc [] 0 0 0 :=
  ⟨init_bounded env _ audio, rfl, rfl, rfl, rfl, rfl, rfl, rfl, rfl⟩

section

variable {env : Env K} {stream : Bytes} {s : LoopState K} {rest : List Bytes}
  {sc sc' : SilenceCut K} {log : List VadEvent} {rs pt received : ℕ}

/-- The steps of a chunk that fits. -/
theorem Stands.run_take {data : Bytes} {n : ℕ}
    (h : Stands env stream .chunk s (data :: rest) sc log rs pt received)
    (hlen : data.length = 2 * n) (hfits : received + n - rs ≤ env.config.window.capSamples) :
    run env s 2 = { s with
        pc := .observe
        audio := rest
        pending := []
        cutTaken := false
        window := s.window.filled data } ∧
      (s.window.filled data).received = received + n := by
  have hrs := h.bounded.tracks.retainedStart_le_received
  have hret : s.window.retained = received - rs := by
    rw [RollingWindow.retained, h.received_eq, h.retainedStart_eq]
  rw [h.received_eq, h.retainedStart_eq] at hrs
  have hhalf : data.length / 2 = n := by omega
  have hroom : data.length / 2 ≤ s.window.cap - s.window.retained := by
    rw [h.bounded.cap_eq, hret]
    omega
  refine ⟨?_, ?_⟩
  · rw [Loop.run_take env h.pc_eq h.audio (by omega) hroom, h.strategy]
    rfl
  · show s.window.received + s.window.room data = _
    rw [RollingWindow.room, min_eq_left hroom, h.received_eq, hhalf]

/-- A chunk that fits is taken whole. -/
theorem Stands.take {data : Bytes} {n : ℕ}
    (h : Stands env stream .chunk s (data :: rest) sc log rs pt received)
    (hlen : data.length = 2 * n) (hfits : received + n - rs ≤ env.config.window.capSamples) :
    Stands env stream .observe (run env s 2) rest sc log rs pt (received + n) := by
  have hbounded := (step_bounded env stream).run h.bounded 2
  change Bounded env stream (run env s 2) at hbounded
  obtain ⟨htake, hreceived⟩ := h.run_take hlen hfits
  rw [htake] at hbounded ⊢
  exact ⟨hbounded, rfl, rfl, rfl, h.strategy, h.vadLog, h.retainedStart_eq,
    h.processedThrough_eq, hreceived⟩

omit [Field K] [LinearOrder K] in
/-- A cut far enough from the window start, and past what is processed, is taken. -/
theorem Stands.takesCut {pc : Pc}
    (h : Stands env stream pc s rest sc log rs pt received) {cut : Cut}
    {p : ℕ} (hat : cut.at_ = secondsAt p) (hfar : MIN_DECODE_S ≤ secondsAt p - secondsAt rs)
    (hpt : pt < p) : Loop.takesCut s cut = true := by
  rw [Loop.takesCut, hat, toSamples_secondsAt, RollingWindow.start, h.retainedStart_eq,
    h.processedThrough_eq, decide_eq_false (not_lt.mpr hfar), decide_eq_false (by omega)]
  rfl

theorem Stands.judge {pc : Pc} (h : Stands env stream pc s rest sc log rs pt received)
    (hrs : rs ≤ sc.scanned) :
    Loop.judge env s sc = judgeStream env.numerics stream sc rs received := by
  have hjudge := judge_eq_judgeStream env h.bounded.tracks (by rw [h.retainedStart_eq]; exact hrs)
  rwa [h.retainedStart_eq, h.received_eq] at hjudge

/-- A look whose cut, if it asks for one, is refused: the loop goes back for the next chunk. -/
theorem Stands.leave (h : Stands env stream .observe s rest sc log rs pt received)
    (hrs : rs ≤ sc.scanned) {asked : Option Cut} {activities : List Activity}
    (hj : judgeStream env.numerics stream sc rs received = (asked, sc', activities))
    (hrefused : ∀ cut ∈ asked, cut.at_ - secondsAt rs < MIN_DECODE_S) :
    Stands env stream .chunk (run env s 3) rest sc'
      (log ++ activities.map .frame ++ asked.toList.map (fun cut => .cut cut false)) rs pt
      received := by
  have hbounded := (step_bounded env stream).run h.bounded 3
  change Bounded env stream (run env s 3) at hbounded
  have hclose : ∀ cut ∈ asked, Loop.takesCut s cut = false := by
    intro cut hcut
    have hlt := hrefused cut hcut
    rw [← h.retainedStart_eq] at hlt
    simp only [Loop.takesCut, RollingWindow.start, hlt, decide_true, Bool.not_true, Bool.false_and]
  obtain ⟨d, hrun⟩ := run_leave h.pc_eq h.strategy h.pending ((h.judge hrs).trans hj) hclose
  rw [hrun] at hbounded ⊢
  exact ⟨hbounded, rfl, h.pending, h.audio, rfl, by rw [← h.vadLog]; rfl, h.retainedStart_eq,
    h.processedThrough_eq, h.received_eq⟩

/-- A look whose cut at sample `p` is taken with overlap. -/
theorem Stands.cut (h : Stands env stream .observe s rest sc log rs pt received)
    (hrs : rs ≤ sc.scanned) {cut : Cut} {activities : List Activity} {p : ℕ}
    (hj : judgeStream env.numerics stream sc rs received = (some cut, sc', activities))
    (hat : cut.at_ = secondsAt p) (hfar : MIN_DECODE_S ≤ secondsAt p - secondsAt rs)
    (hpt : pt < p) (hp : p ≤ received) (hkeep : keepsOverlap env cut = true) :
    Stands env stream .observe (run env s 1) rest sc'
      (log ++ activities.map .frame ++ [.cut cut true])
      (max rs (p - env.config.window.overlapSamples)) p received := by
  have hbounded := (step_bounded env stream).run h.bounded 1
  change Bounded env stream (run env s 1) at hbounded
  have hrun := run_take_cut h.pc_eq h.strategy ((h.judge hrs).trans hj) (h.takesCut hat hfar hpt)
  obtain ⟨tr, d, htake, -⟩ := takeCut_frame env (judged s sc' activities [.cut cut true]) cut hat
  rw [htake] at hrun
  have hprocessed : (s.window.retire p (keepsOverlap env cut)).processedThrough = p :=
    RollingWindow.retire_processedThrough_eq (by rw [h.processedThrough_eq]; exact hpt.le)
      (by rw [h.received_eq]; exact hp) _
  have hretained : (s.window.retire p (keepsOverlap env cut)).retainedStart
      = max rs (p - env.config.window.overlapSamples) := by
    rw [RollingWindow.retire_retainedStart, hprocessed, hkeep, if_pos rfl, h.retainedStart_eq,
      h.bounded.overlap_eq]
  rw [hrun] at hbounded ⊢
  exact ⟨hbounded, h.pc_eq, h.pending, h.audio, rfl, by rw [← h.vadLog]; rfl, hretained, hprocessed,
    h.received_eq⟩

/-- A look that takes no cut commits nothing. -/
theorem Stands.leave_transcript (h : Stands env stream .observe s rest sc log rs pt received)
    (hrs : rs ≤ sc.scanned) {activities : List Activity}
    (hj : judgeStream env.numerics stream sc rs received = (none, sc', activities)) :
    (run env s 3).transcript = s.transcript := by
  obtain ⟨d, hrun⟩ := run_leave h.pc_eq h.strategy h.pending ((h.judge hrs).trans hj) (by simp)
  rw [hrun]
  rfl

/-- The audio is exhausted. -/
theorem Stands.exhaust (h : Stands env stream .chunk s [] sc log rs pt received) :
    Stands env stream .tail (run env s 1) [] sc log rs pt received := by
  have hbounded := (step_bounded env stream).run h.bounded 1
  change Bounded env stream (run env s 1) at hbounded
  have hstep : run env s 1 = { s with pc := .tail } := by
    rw [run_succ, run_zero]
    simp only [step, h.pc_eq, h.audio]
  rw [hstep] at hbounded ⊢
  exact ⟨hbounded, rfl, h.pending, h.audio, h.strategy, h.vadLog, h.retainedStart_eq,
    h.processedThrough_eq, h.received_eq⟩

theorem Stands.exhaust_transcript (h : Stands env stream .chunk s [] sc log rs pt received) :
    (run env s 1).transcript = s.transcript := by
  rw [run_succ, run_zero]
  simp only [step, h.pc_eq, h.audio]

/-- The tail is resolved. -/
theorem Stands.resolve (h : Stands env stream .tail s rest sc log rs pt received) :
    Stands env stream .done (run env s 1) rest sc log rs pt received := by
  have hbounded := (step_bounded env stream).run h.bounded 1
  change Bounded env stream (run env s 1) at hbounded
  obtain ⟨tr, d, htail, -⟩ := resolveTail_frame env s
  have hstep : run env s 1 = resolveTail env s := by
    rw [run_succ, run_zero, step_tail env h.pc_eq]
  rw [hstep, htail] at hbounded ⊢
  exact ⟨hbounded, rfl, h.pending, h.audio, h.strategy, h.vadLog, h.retainedStart_eq,
    h.processedThrough_eq, h.received_eq⟩

end

/-- A session that keeps no overlap, with the numbers of the code and a decoder that hears
nothing. -/
noncomputable def bareEnv : Env ℝ where
  config := { window := ⟨5, 0, le_rfl, le_rfl, by norm_num⟩ }
  decode := fun _ _ _ => {}
  wall := fun _ => 0
  unicode := .ascii
  numerics := realNumerics

theorem bareEnv_capSamples : bareEnv.config.window.capSamples = 80000 := by
  show (toSamples 5).toNat = 80000
  decide +kernel

theorem bareEnv_overlapSamples : bareEnv.config.window.overlapSamples = 0 := by
  show (toSamples 0).toNat = 0
  decide +kernel

end Loop

end Myna
