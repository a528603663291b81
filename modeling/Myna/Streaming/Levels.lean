import Myna.Streaming.Strategies
import Mathlib.Analysis.Complex.Exponential
import Mathlib.Analysis.Real.Pi.Bounds

/-!
# Myna — the levels of a step (`highpass.py`, `strategies.py`)

The detector with the numbers the code runs with: the pole `exp (-2π · 80 / 16000)` and the real
square root. A stream that steps once and then holds its value rings through the filter and fades:
the first frame is heard, and eight frames later the smoothed level is silence.

* **`realNumerics`** — `_POLE` and `math.sqrt`;
* **`onePole_zeros_le`**, **`le_onePole_zeros`** — the energy of the ringing;
* **`Fading`** — the detector `k` frames after the step; `Fading.scanFrame` is one more frame.
-/

namespace Myna

/-! ## The levels of a stream -/

section

variable {K : Type*} [Field K]

/-- The levels of a stream, in the field the detector measures in. -/
def levels (stream : Bytes) : List K := (RollingWindow.toFloat stream).map (Rat.cast : ℚ → K)

theorem levels_append {xs : Bytes} (h : xs.length % 2 = 0) (ys : Bytes) :
    (levels (xs ++ ys) : List K) = levels xs ++ levels ys := by
  rw [levels, RollingWindow.toFloat, decodeInt16_append h, List.map_append, List.map_append]
  rfl

@[simp] theorem length_levels (stream : Bytes) :
    (levels stream : List K).length = stream.length / 2 := by
  rw [levels, List.length_map, RollingWindow.toFloat, List.length_map, length_decodeInt16]

end

open Real

/-! ## The pole -/

instance atLeastTwo_eighty : Nat.AtLeastTwo 80 := ⟨by decide⟩

/-- `_POLE = math.exp(-2.0 * math.pi * HIGH_PASS_HZ / _RATE)`, and `math.sqrt`. -/
noncomputable def realNumerics : Numerics ℝ := ⟨exp (-2 * π * 80 / 16000), sqrt⟩

theorem pole_ge : (96 / 100 : ℝ) ≤ realNumerics.pole := by
  have hpi : π < 3.15 := pi_lt_d2
  have hexp := add_one_le_exp (-2 * π * 80 / 16000)
  show (96 / 100 : ℝ) ≤ exp (-2 * π * 80 / 16000)
  linarith

theorem pole_le : realNumerics.pole ≤ (97 / 100 : ℝ) := by
  have hpi : 3.14 < π := pi_gt_d2
  have hexp := add_one_le_exp (2 * π * 80 / 16000)
  have hinv : exp (-2 * π * 80 / 16000) = (exp (2 * π * 80 / 16000))⁻¹ := by
    rw [← exp_neg]
    congr 1
    ring
  show exp (-2 * π * 80 / 16000) ≤ (97 / 100 : ℝ)
  rw [hinv, inv_le_comm₀ (exp_pos _) (by norm_num)]
  linarith

theorem pole_pos : 0 < realNumerics.pole := exp_pos _

theorem pole_ne_zero : realNumerics.pole ≠ 0 := pole_pos.ne'

theorem pole_pow_le_one (n : ℕ) : realNumerics.pole ^ n ≤ 1 :=
  pow_le_one₀ pole_pos.le (pole_le.trans (by norm_num))

/-- One frame on, nothing is left of a level. -/
theorem pole_pow_frame_le : realNumerics.pole ^ (478 + 1) ≤ 1 / 10000 := by
  have hhalf : realNumerics.pole ^ 239 ≤ 1 / 100 :=
    (pow_le_pow_left₀ pole_pos.le pole_le 239).trans (by norm_num)
  calc realNumerics.pole ^ (478 + 1)
      = realNumerics.pole ^ 239 * realNumerics.pole ^ 239 * realNumerics.pole ^ 1 := by
        rw [← pow_add, ← pow_add]
    _ ≤ 1 / 100 * (1 / 100) * 1 := by
        have hpos := pole_pos
        gcongr
        exact pole_pow_le_one 1
    _ = 1 / 10000 := by norm_num

/-! ## The ringing of the filter -/

/-- `np.sum(frame * frame)`. -/
def energy (frame : List ℝ) : ℝ := (frame.map (fun x => x * x)).sum

theorem energy_cons (x : ℝ) (frame : List ℝ) : energy (x :: frame) = x * x + energy frame := by
  simp [energy]

/-- Without a change of its input the filter fades by its pole a sample. -/
theorem onePole_zeros_succ (pole prev : ℝ) (n : ℕ) :
    onePole pole prev (List.replicate (n + 1) 0)
      = pole * prev :: onePole pole (pole * prev) (List.replicate n 0) := by
  rw [List.replicate_succ, onePole, add_zero]

theorem getLastD_onePole_zeros (pole prev : ℝ) (n : ℕ) :
    (onePole pole prev (List.replicate n 0)).getLastD prev = pole ^ n * prev := by
  induction n generalizing prev with
  | zero => simp [onePole]
  | succ n ih =>
    rw [onePole_zeros_succ, List.getLastD_cons, ih]
    ring

/-- The energy of `n` samples of ringing, in units of the energy of the output before them. -/
noncomputable def ringing (pole : ℝ) : ℕ → ℝ
  | 0 => 0
  | n + 1 => pole ^ 2 * (1 + ringing pole n)

theorem energy_onePole_zeros (pole prev : ℝ) (n : ℕ) :
    energy (onePole pole prev (List.replicate n 0)) = ringing pole n * prev ^ 2 := by
  induction n generalizing prev with
  | zero => simp [energy, onePole, ringing]
  | succ n ih =>
    rw [onePole_zeros_succ]
    calc energy (pole * prev :: onePole pole (pole * prev) (List.replicate n 0))
        = pole * prev * (pole * prev)
            + energy (onePole pole (pole * prev) (List.replicate n 0)) := energy_cons _ _
      _ = pole * prev * (pole * prev) + ringing pole n * (pole * prev) ^ 2 := by rw [ih]
      _ = ringing pole (n + 1) * prev ^ 2 := by
          rw [ringing]
          ring

theorem ringing_nonneg (pole : ℝ) (n : ℕ) : 0 ≤ ringing pole n := by
  induction n with
  | zero => exact le_rfl
  | succ n ih =>
    rw [ringing]
    positivity

/-- A geometric series whose ratio is at most `16 / 17` stays below `16`. -/
theorem ringing_le {pole : ℝ} (h : 17 * pole ^ 2 ≤ 16) (n : ℕ) : ringing pole n ≤ 16 := by
  induction n with
  | zero => norm_num [ringing]
  | succ n ih =>
    rw [ringing]
    nlinarith [sq_nonneg pole]

theorem ringing_le_count {pole : ℝ} (h : pole ^ 2 ≤ 1) (n : ℕ) : ringing pole n ≤ n := by
  induction n with
  | zero => simp [ringing]
  | succ n ih =>
    have hring := ringing_nonneg pole n
    rw [ringing]
    push_cast
    nlinarith

theorem ringing_mono {pole pole' : ℝ} (h0 : 0 ≤ pole) (h : pole ≤ pole') (n m : ℕ) :
    ringing pole n ≤ ringing pole' (n + m) := by
  induction n with
  | zero =>
    rw [ringing]
    exact ringing_nonneg _ _
  | succ n ih =>
    have hring := ringing_nonneg pole n
    rw [show n + 1 + m = n + m + 1 by omega, ringing, ringing]
    gcongr

theorem five_le_ringing (n : ℕ) : 5 ≤ ringing realNumerics.pole (7 + n) := by
  calc (5 : ℝ) ≤ ringing (96 / 100) 7 := by norm_num [ringing]
    _ ≤ ringing realNumerics.pole (7 + n) := ringing_mono (by norm_num) pole_ge 7 n

/-! ## Frames of the step -/

/-- `np.mean` under the root: the level of a frame from its energy. -/
theorem frameRms_realNumerics (frame : List ℝ) :
    frameRms realNumerics frame = sqrt (energy frame / frame.length) := rfl

theorem diffs_replicate (x : ℝ) (n : ℕ) :
    diffs x (List.replicate n x) = List.replicate n 0 := by
  induction n with
  | zero => rfl
  | succ n ih => rw [List.replicate_succ, diffs, ih, sub_self, List.replicate_succ]

theorem diffs_step (x : ℝ) (n : ℕ) :
    diffs 0 (0 :: List.replicate (n + 1) x) = 0 :: x :: List.replicate n 0 := by
  rw [List.replicate_succ, diffs, diffs, diffs_replicate, sub_self, sub_zero]

theorem onePole_step (pole x : ℝ) (n : ℕ) :
    onePole pole 0 (0 :: x :: List.replicate n 0)
      = 0 :: onePole pole x (List.replicate (n + 1) 0) := by
  rw [onePole_zeros_succ, onePole, onePole, add_zero, mul_zero, zero_add]

/-- The first frame of a step: the filter starts at the old value, so its output is the ringing. -/
theorem call_step (x : ℝ) (n : ℕ) :
    HighPass.new.call realNumerics (0 :: List.replicate (n + 1) x)
      = (0 :: onePole realNumerics.pole x (List.replicate (n + 1) 0),
        ⟨some x, realNumerics.pole ^ (n + 1) * x⟩) := by
  rw [HighPass.call_eq_onePole pole_ne_zero]
  show (onePole realNumerics.pole 0 (diffs 0 (0 :: List.replicate (n + 1) x)),
    HighPass.mk _ ((onePole realNumerics.pole 0
      (diffs 0 (0 :: List.replicate (n + 1) x))).getLastD 0))
    = _
  have hlast : (0 :: List.replicate (n + 1) x).getLastD 0 = x := by
    rw [List.getLastD_cons, List.replicate_succ', List.getLastD_concat]
  rw [diffs_step, onePole_step, hlast, List.getLastD_cons, onePole_zeros_succ, List.getLastD_cons,
    getLastD_onePole_zeros, pow_succ, mul_assoc]

/-- A frame that holds the value before it. -/
theorem call_hold (x q : ℝ) (n : ℕ) :
    (HighPass.mk (some x) q).call realNumerics (List.replicate (n + 1) x)
      = (onePole realNumerics.pole q (List.replicate (n + 1) 0),
        ⟨some x, realNumerics.pole ^ (n + 1) * q⟩) := by
  have hlast : (List.replicate (n + 1) x).getLastD x = x := by
    rw [List.replicate_succ', List.getLastD_concat]
  rw [List.replicate_succ, HighPass.call_eq_onePole pole_ne_zero, Option.getD_some,
    ← List.replicate_succ, diffs_replicate, getLastD_onePole_zeros, hlast, List.replicate_succ]

/-! ## The detector after the step -/

theorem update_of_started {vad : AdaptiveVad ℝ} (h : vad.started = true) (rms : ℝ) :
    (vad.update rms).2.started = true ∧
      (vad.update rms).2.smoothed = 3 / 10 * rms + 7 / 10 * vad.smoothed ∧
      ((vad.update rms).2.smoothed < 24 / 10000 → (vad.update rms).1 = .silent) := by
  simp only [AdaptiveVad.update, h, Bool.true_or, if_true]
  refine ⟨trivial, trivial, fun hlow => if_pos (hlow.trans_le (le_min ?_ ?_))⟩
  · exact le_max_of_le_right (by norm_num)
  · norm_num

/-- A first frame above the threshold is heard. -/
theorem update_new {rms : ℝ} (h : 1 / 20 < rms) :
    (AdaptiveVad.new.update rms).1 = .active ∧ (AdaptiveVad.new.update rms).2.started = true ∧
      (AdaptiveVad.new.update rms).2.smoothed = 3 / 10 * rms := by
  -- the floor does not move on a frame this loud
  have hfloor : (AdaptiveVad.new : AdaptiveVad ℝ).trackFloor rms = 3 / 1000 := by
    have hbase : max (3 / 1000 : ℝ) (4 / 1000 / 5) = 3 / 1000 := max_eq_left (by norm_num)
    simp only [AdaptiveVad.trackFloor, AdaptiveVad.new, hbase]
    rw [if_neg (by linarith), if_neg (by linarith)]
  have hthreshold : min (max (3 / 1000 * 5 : ℝ) (4 / 1000)) (8 / 100) = 15 / 1000 := by
    rw [max_eq_left (by norm_num), min_eq_left (by norm_num)]
    norm_num
  have hstarted : (15 / 1000 : ℝ) < 3 / 10 * rms := by linarith
  simp only [AdaptiveVad.update, hfloor, hthreshold]
  simp only [AdaptiveVad.new, mul_zero, add_zero, Bool.false_or, hstarted, decide_true, if_true]
  refine ⟨if_neg (not_lt.mpr ?_), trivial, trivial⟩
  refine (min_le_left _ _).trans (max_le ?_ ?_)
  · have hle := min_le_left (3 / 1000 : ℝ)
      (max (3 / 10 * rms) (0 * AdaptiveVad.speechDecay) * AdaptiveVad.speechFloorRatio)
    linarith
  · linarith

/-- What one frame leaves in the detector and the filter, whatever it asks for. -/
theorem scanFrame_levels {num : Numerics ℝ} {s s' : SilenceCut ℝ} {start off : ℕ}
    {frame : List ℝ} {activity : Activity} {asked : Option Cut}
    (h : s.scanFrame num start off frame = (activity, asked, s')) :
    (activity, s'.vad) = s.vad.update (frameRms num (s.highpass.call num frame).1) ∧
      s'.highpass = (s.highpass.call num frame).2 ∧ s'.arm = s.arm ∧
      s'.silenceCut = s.silenceCut ∧ s'.forceCut = s.forceCut := by
  simp only [SilenceCut.scanFrame] at h
  generalize s.vad.update _ = judged at h ⊢
  obtain ⟨judgement, vad⟩ := judged
  by_cases harm : ((off + FRAME_LEN : ℕ) : ℤ) < toSamples s.arm
  · rw [if_pos harm] at h
    obtain ⟨rfl, -, rfl⟩ := h
    exact ⟨rfl, rfl, rfl, rfl, rfl⟩
  · rw [if_neg harm] at h
    cases judgement with
    | silent =>
      dsimp only at h
      split_ifs at h <;> obtain ⟨rfl, -, rfl⟩ := h <;> exact ⟨rfl, rfl, rfl, rfl, rfl⟩
    | active =>
      obtain ⟨rfl, -, rfl⟩ := h
      exact ⟨rfl, rfl, rfl, rfl, rfl⟩
    | notStarted =>
      obtain ⟨rfl, -, rfl⟩ := h
      exact ⟨rfl, rfl, rfl, rfl, rfl⟩

/-- The detector `k` frames after the frame of the step: it has started, the filter has faded and
the smoothed level decays towards it. -/
structure Fading (sc : SilenceCut ℝ) (k : ℕ) : Prop where
  started : sc.vad.started = true
  highpass : ∃ q, sc.highpass = ⟨some (1 / 2), q⟩ ∧ q ^ 2 ≤ (1 / 10000) ^ 2
  smoothed : sc.vad.smoothed ≤ 3 / 100 * (7 / 10) ^ k + 1 / 10000

/-- The frame of the step: `FRAME_LEN` samples, the first of them still at zero. -/
noncomputable def stepFrame : List ℝ := 0 :: List.replicate (478 + 1) (1 / 2)

noncomputable def holdFrame : List ℝ := List.replicate (479 + 1) (1 / 2)

/-- **The step is heard.** -/
theorem scanFrame_step {sc sc' : SilenceCut ℝ} (hvad : sc.vad = .new) (hhp : sc.highpass = .new)
    {start off : ℕ} {activity : Activity} {asked : Option Cut}
    (h : sc.scanFrame realNumerics start off stepFrame = (activity, asked, sc')) :
    activity = .active ∧ Fading sc' 0 := by
  obtain ⟨hupdate, hfilter, -⟩ := scanFrame_levels h
  rw [hvad, hhp, stepFrame, call_step] at hupdate
  rw [hhp, stepFrame, call_step] at hfilter
  set rms := frameRms realNumerics
    (0 :: onePole realNumerics.pole (1 / 2) (List.replicate (478 + 1) 0)) with hrms
  have henergy : energy (0 :: onePole realNumerics.pole (1 / 2) (List.replicate (478 + 1) 0))
      = ringing realNumerics.pole (7 + 472) * (1 / 2) ^ 2 := by
    rw [energy_cons, energy_onePole_zeros, mul_zero, zero_add]
  have hsq : rms = sqrt (ringing realNumerics.pole (7 + 472) * (1 / 2) ^ 2 / 480) := by
    rw [hrms, frameRms_realNumerics, henergy]
    norm_num
  have hlow := five_le_ringing 472
  have hhigh : ringing realNumerics.pole (7 + 472) ≤ 16 := by
    refine ringing_le ?_ _
    nlinarith [pole_le, pole_pos]
  have hloud : 1 / 20 < rms := by
    rw [hsq]
    refine lt_sqrt_of_sq_lt ?_
    linarith
  have hle : rms ≤ 1 / 10 := by
    rw [hsq]
    refine sqrt_le_iff.mpr ⟨by norm_num, ?_⟩
    linarith
  obtain ⟨hactive, hstarted, hsmoothed⟩ := update_new hloud
  rw [← hupdate] at hactive hstarted hsmoothed
  refine ⟨hactive, hstarted, ⟨_, hfilter, ?_⟩, ?_⟩
  · -- 479 samples of ringing
    have hnonneg := pow_nonneg pole_pos.le (478 + 1)
    have hsmall := pole_pow_frame_le
    generalize realNumerics.pole ^ (478 + 1) = ring at hnonneg hsmall ⊢
    refine pow_le_pow_left₀ (by positivity) ?_ 2
    linarith
  · show sc'.vad.smoothed ≤ _
    have heq : sc'.vad.smoothed = 3 / 10 * rms := hsmoothed
    rw [heq]
    linarith

/-- **One more frame**: the level keeps falling, and from the eighth frame on it is silence. -/
theorem Fading.scanFrame {sc sc' : SilenceCut ℝ} {k : ℕ} (hf : Fading sc k) {start off : ℕ}
    {activity : Activity} {asked : Option Cut}
    (h : sc.scanFrame realNumerics start off holdFrame = (activity, asked, sc')) :
    Fading sc' (k + 1) ∧ (7 ≤ k → activity = .silent) := by
  obtain ⟨q, hq, hsmall⟩ := hf.highpass
  obtain ⟨hupdate, hfilter, -⟩ := scanFrame_levels h
  rw [hq, holdFrame, call_hold] at hupdate hfilter
  set rms := frameRms realNumerics (onePole realNumerics.pole q (List.replicate (479 + 1) 0))
    with hrms
  have hquiet : rms ≤ 1 / 10000 := by
    have hcount := ringing_le_count (pole_pow_le_one 2) (479 + 1)
    rw [hrms, frameRms_realNumerics, energy_onePole_zeros, length_onePole, List.length_replicate]
    refine sqrt_le_iff.mpr ⟨by norm_num, ?_⟩
    rw [div_le_iff₀ (by norm_num)]
    push_cast at hcount ⊢
    nlinarith [sq_nonneg q]
  obtain ⟨hstarted, hsmoothed, hsilent⟩ := update_of_started hf.started rms
  rw [← hupdate] at hstarted hsmoothed hsilent
  have hlevel : sc'.vad.smoothed ≤ 3 / 100 * (7 / 10) ^ (k + 1) + 1 / 10000 := by
    have heq : sc'.vad.smoothed = 3 / 10 * rms + 7 / 10 * sc.vad.smoothed := hsmoothed
    have hbefore := hf.smoothed
    rw [heq, pow_succ]
    linarith
  refine ⟨⟨hstarted, ⟨_, hfilter, ?_⟩, hlevel⟩, fun hk => hsilent ?_⟩
  · rw [mul_pow, ← pow_mul]
    calc realNumerics.pole ^ ((479 + 1) * 2) * q ^ 2
        ≤ 1 * (1 / 10000) ^ 2 := by
          gcongr
          exact pole_pow_le_one _
      _ = (1 / 10000) ^ 2 := one_mul _
  · have hpow : (7 / 10 : ℝ) ^ (k + 1) ≤ (7 / 10) ^ 8 :=
      pow_le_pow_of_le_one (by norm_num) (by norm_num) (by omega)
    refine hlevel.trans_lt ?_
    norm_num at hpow ⊢
    linarith

/-! ## The bytes of the step -/

/-- `n` samples at half of full scale, in bytes. -/
def holdPcm (n : ℕ) : Bytes := (List.replicate n [0, 64]).flatten

/-- A sample at zero, and then `n` at half of full scale. -/
def stepPcm (n : ℕ) : Bytes := [0, 0] ++ holdPcm n

/-- `n` samples at zero. -/
def quietPcm (n : ℕ) : Bytes := List.replicate (2 * n) 0

@[simp] theorem length_holdPcm (n : ℕ) : (holdPcm n).length = 2 * n := by
  simp [holdPcm, Nat.mul_comm]

@[simp] theorem length_stepPcm (n : ℕ) : (stepPcm n).length = 2 * (n + 1) := by
  simp [stepPcm, Nat.mul_add]

@[simp] theorem length_quietPcm (n : ℕ) : (quietPcm n).length = 2 * n := List.length_replicate

@[simp] theorem length_stepFrame : stepFrame.length = FRAME_LEN := by
  simp only [stepFrame, List.length_cons, List.length_replicate, FRAME_LEN]

@[simp] theorem length_holdFrame : holdFrame.length = FRAME_LEN := List.length_replicate

theorem toFloat_holdPcm (n : ℕ) : RollingWindow.toFloat (holdPcm n) = List.replicate n (1 / 2) := by
  induction n with
  | zero => rfl
  | succ n ih =>
    have hhalf : ((int16 0 64 : ℤ) : ℚ) / 32768 = 1 / 2 := by
      rw [show int16 0 64 = 16384 by decide]
      norm_num
    show RollingWindow.toFloat (0 :: 64 :: holdPcm n) = _
    rw [RollingWindow.toFloat, decodeInt16, List.map_cons, hhalf, List.replicate_succ, ← ih]
    rfl

theorem toFloat_stepPcm (n : ℕ) :
    RollingWindow.toFloat (stepPcm n) = 0 :: List.replicate n (1 / 2) := by
  have hzero : ((int16 0 0 : ℤ) : ℚ) / 32768 = 0 := by
    rw [show int16 0 0 = 0 by decide, Int.cast_zero, zero_div]
  show RollingWindow.toFloat (0 :: 0 :: holdPcm n) = _
  rw [RollingWindow.toFloat, decodeInt16, List.map_cons, hzero, ← toFloat_holdPcm]
  rfl

theorem levels_holdPcm (n : ℕ) : (levels (holdPcm n) : List ℝ) = List.replicate n (1 / 2) := by
  rw [levels, toFloat_holdPcm, List.map_replicate]
  norm_num

theorem levels_stepPcm (n : ℕ) :
    (levels (stepPcm n) : List ℝ) = 0 :: List.replicate n (1 / 2) := by
  rw [levels, toFloat_stepPcm, List.map_cons, List.map_replicate]
  norm_num

theorem stepPcm_append_holdPcm (n m : ℕ) : stepPcm n ++ holdPcm m = stepPcm (n + m) := by
  rw [stepPcm, stepPcm, holdPcm, holdPcm, holdPcm, List.replicate_add, List.flatten_append,
    List.append_assoc]

/-- A step of `n + 1` frames, frame by frame. -/
theorem levels_stepPcm_frames (n : ℕ) :
    (levels (stepPcm (479 + n * 480)) : List ℝ)
      = stepFrame ++ (List.replicate n holdFrame).flatten := by
  rw [levels_stepPcm, stepFrame, holdFrame, List.flatten_replicate_replicate, List.cons_append,
    List.replicate_append_replicate]

/-! ## Scanning the step -/

theorem SilenceCut.scan_frame_none {num : Numerics ℝ} {s s' : SilenceCut ℝ} {start off : ℕ}
    {frame : List ℝ} {activity : Activity} (hlen : frame.length = FRAME_LEN)
    (h : s.scanFrame num start off frame = (activity, none, s')) (n : ℕ) (rest : List ℝ) :
    scan num start (n + 1) off (frame ++ rest) s
      = ((scan num start n (off + FRAME_LEN) rest s').1,
        (scan num start n (off + FRAME_LEN) rest s').2.1,
        activity :: (scan num start n (off + FRAME_LEN) rest s').2.2) := by
  rw [scan, ← hlen, List.take_left, List.drop_left, h]

theorem SilenceCut.scan_frame_some {num : Numerics ℝ} {s s' : SilenceCut ℝ} {start off : ℕ}
    {frame : List ℝ} {activity : Activity} {cut : Cut} (hlen : frame.length = FRAME_LEN)
    (h : s.scanFrame num start off frame = (activity, some cut, s')) (n : ℕ) (rest : List ℝ) :
    scan num start (n + 1) off (frame ++ rest) s = (some cut, s', [activity]) := by
  rw [scan, ← hlen, List.take_left, h]

/-- No cut is asked for before the arm point. -/
theorem SilenceCut.scanFrame_unarmed (num : Numerics ℝ) (s : SilenceCut ℝ) (start : ℕ) {off : ℕ}
    (h : ((off + FRAME_LEN : ℕ) : ℤ) < toSamples s.arm) (frame : List ℝ) :
    ∃ activity s', s.scanFrame num start off frame = (activity, none, s') ∧
      s'.silenceRun = s.silenceRun := by
  simp only [scanFrame, if_pos h]
  exact ⟨_, _, rfl, rfl⟩

/-- A silent frame past it asks for one, once the run is long enough. -/
theorem SilenceCut.scanFrame_silent (num : Numerics ℝ) (s : SilenceCut ℝ) (start : ℕ) {off : ℕ}
    {frame : List ℝ} (harm : toSamples s.arm ≤ ((off + FRAME_LEN : ℕ) : ℤ))
    (hrun : s.silenceCut ≤ s.silenceRun + SC_FRAME_S)
    (hsilent : (s.vad.update (frameRms num (s.highpass.call num frame).1)).1 = .silent) :
    ∃ quiet s', s.scanFrame num start off frame
        = (.silent, some ⟨secondsAt (start + (off + FRAME_LEN)), false, quiet⟩, s') ∧
      s'.silenceRun = 0 := by
  simp only [scanFrame, if_neg (not_lt.mpr harm)]
  generalize s.vad.update _ = judged at hsilent ⊢
  obtain ⟨judgement, vad⟩ := judged
  obtain rfl : judgement = .silent := hsilent
  dsimp only
  rw [if_pos hrun]
  exact ⟨_, _, rfl, rfl⟩

/-- A strategy that arms at `0.27` s and cuts on one silent frame, its detector fading. -/
structure Listening (sc : SilenceCut ℝ) (k : ℕ) : Prop extends Fading sc k where
  arm : sc.arm = 27 / 100
  silenceCut : sc.silenceCut = 3 / 100
  forceCut : sc.forceCut = 60
  silenceRun : sc.silenceRun = 0

theorem toSamples_arm : toSamples (27 / 100) = 4320 := by decide +kernel

/-- It asks for a cut after every frame past the arm point, once the level is silence. -/
theorem Listening.scanFrame {sc : SilenceCut ℝ} {k : ℕ} (h : Listening sc k) (start : ℕ) {off : ℕ}
    (hk : 4320 ≤ off + FRAME_LEN → 7 ≤ k) :
    ∃ activity asked sc', sc.scanFrame realNumerics start off holdFrame = (activity, asked, sc') ∧
      Listening sc' (k + 1) ∧ (off + FRAME_LEN < 4320 → asked = none) ∧
      (4320 ≤ off + FRAME_LEN →
        ∃ quiet, asked = some ⟨secondsAt (start + (off + FRAME_LEN)), false, quiet⟩) := by
  rcases hscan : sc.scanFrame realNumerics start off holdFrame with ⟨activity, asked, sc'⟩
  obtain ⟨hfading, hsilent⟩ := h.toFading.scanFrame hscan
  obtain ⟨hupdate, -, harm, hcut, hforce⟩ := scanFrame_levels hscan
  have harm' : toSamples sc.arm = 4320 := by rw [h.arm, toSamples_arm]
  refine ⟨activity, asked, sc', rfl, ?_⟩
  rcases lt_or_ge (off + FRAME_LEN) 4320 with hbefore | hpast
  · obtain ⟨_, _, hnone, hrun⟩ := SilenceCut.scanFrame_unarmed realNumerics sc start
      (by rw [harm']; exact_mod_cast hbefore) holdFrame
    rw [hscan] at hnone
    obtain ⟨rfl, rfl, rfl⟩ := hnone
    exact ⟨⟨hfading, harm.trans h.arm, hcut.trans h.silenceCut, hforce.trans h.forceCut,
      hrun.trans h.silenceRun⟩, fun _ => rfl, fun hpast => absurd hbefore (not_lt.mpr hpast)⟩
  · have hquiet : (sc.vad.update
        (frameRms realNumerics (sc.highpass.call realNumerics holdFrame).1)).1 = .silent := by
      rw [← hupdate]
      exact hsilent (hk hpast)
    have hlong : sc.silenceCut ≤ sc.silenceRun + SC_FRAME_S := by
      rw [h.silenceCut, h.silenceRun, zero_add, SC_FRAME_S]
    obtain ⟨quiet, _, hsome, hrun⟩ := SilenceCut.scanFrame_silent realNumerics sc start
      (by rw [harm']; exact_mod_cast hpast) hlong hquiet
    rw [hscan] at hsome
    obtain ⟨rfl, rfl, rfl⟩ := hsome
    exact ⟨⟨hfading, harm.trans h.arm, hcut.trans h.silenceCut, hforce.trans h.forceCut, hrun⟩,
      fun hbefore => absurd hbefore (not_lt.mpr hpast), fun _ => ⟨quiet, rfl⟩⟩

/-- A scan of `n` frames before the arm point and one at it asks for a cut there, whatever
follows. -/
theorem Listening.scan {sc : SilenceCut ℝ} {k : ℕ} (h : Listening sc k)
    (start : ℕ) {off : ℕ} (n m : ℕ)
    (rest : List ℝ) (harm : off + (n + 1) * FRAME_LEN = 4320) (hk : 7 ≤ k + n) :
    ∃ activities quiet sc', SilenceCut.scan realNumerics start (n + 1 + m) off
        ((List.replicate (n + 1) holdFrame).flatten ++ rest) sc
          = (some ⟨secondsAt (start + 4320), false, quiet⟩, sc', activities) ∧
      Listening sc' (k + n + 1) ∧ sc'.scanned = start + 4320 := by
  induction n generalizing sc k off with
  | zero =>
    obtain ⟨activity, asked, sc', hscan, hnext, -, hasks⟩ := h.scanFrame start
      (show 4320 ≤ off + FRAME_LEN → 7 ≤ k from fun _ => hk)
    obtain ⟨quiet, rfl⟩ := hasks (by omega)
    have hoff : off + FRAME_LEN = 4320 := by omega
    have hscanned := (SilenceCut.scanFrame_some hscan).2.2.2.1
    rw [hoff] at hscan hscanned
    refine ⟨[activity], quiet, sc', ?_, hnext, hscanned⟩
    rw [List.replicate_one, List.flatten_singleton, Nat.zero_add, Nat.add_comm]
    exact SilenceCut.scan_frame_some length_holdFrame hscan m rest
  | succ n ih =>
    have hbefore : off + FRAME_LEN < 4320 := by
      simp only [FRAME_LEN] at harm ⊢
      omega
    obtain ⟨activity, asked, sc', hscan, hnext, hnone, -⟩ := h.scanFrame start
      (fun hpast => absurd hbefore (not_lt.mpr hpast))
    obtain rfl := hnone hbefore
    obtain ⟨activities, quiet, sc'', hrest, hlast, hscanned⟩ := ih hnext
      (show off + FRAME_LEN + (n + 1) * FRAME_LEN = 4320 by rw [← harm]; ring) (by omega)
    refine ⟨activity :: activities, quiet, sc'', ?_, ?_, hscanned⟩
    · rw [List.replicate_succ, List.flatten_cons, List.append_assoc,
        show n + 1 + 1 + m = n + 1 + m + 1 by omega,
        SilenceCut.scan_frame_none length_holdFrame hscan, hrest]
    · rwa [show k + (n + 1) + 1 = k + 1 + n + 1 by omega]

/-- **The scan of a step** of nine frames or more: it asks for a cut at the end of the ninth. -/
theorem scan_step (m : ℕ) (rest : List ℝ) :
    ∃ activities quiet sc', SilenceCut.scan realNumerics 0 (9 + m) 0
        (stepFrame ++ ((List.replicate 8 holdFrame).flatten ++ rest))
        (.new (27 / 100) (3 / 100) 60)
          = (some ⟨secondsAt 4320, false, quiet⟩, sc', activities) ∧
      Listening sc' 8 ∧ sc'.scanned = 4320 := by
  obtain ⟨activity, sc', hscan, hrun⟩ := SilenceCut.scanFrame_unarmed realNumerics
    (.new (27 / 100) (3 / 100) 60) 0
    (by show ((0 + FRAME_LEN : ℕ) : ℤ) < toSamples (27 / 100); rw [toSamples_arm]; decide) stepFrame
  obtain ⟨-, hfading⟩ := scanFrame_step rfl rfl hscan
  obtain ⟨-, -, harm, hcut, hforce⟩ := scanFrame_levels hscan
  have hlisten : Listening sc' 0 := ⟨hfading, harm, hcut, hforce, hrun⟩
  obtain ⟨activities, quiet, sc'', hrest, hlast, hscanned⟩ := hlisten.scan 0 7 m
    rest (show FRAME_LEN + (7 + 1) * FRAME_LEN = 4320 by decide) le_rfl
  refine ⟨activity :: activities, quiet, sc'', ?_, hlast, hscanned⟩
  rw [show 9 + m = 7 + 1 + m + 1 by omega,
    SilenceCut.scan_frame_none length_stepFrame hscan, Nat.zero_add,
    hrest]

end Myna
