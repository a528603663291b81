import Myna.Lib.Rounding
import Mathlib.Algebra.BigOperators.Group.List.Basic
import Mathlib.Algebra.Order.Field.Basic
import Mathlib.Tactic.FieldSimp
import Mathlib.Tactic.Ring

/-!
# Myna — the level filter and the adaptive voice detector (`highpass.py`, `strategies.py`)

Levels are measured in an ordered field `K`: the floats of the source in exact arithmetic. The two
numbers the code takes from its floating-point library, the filter pole and the square root, are
`Numerics`; `Vad.lean` asks nothing of them, so what is proved about the detector holds for every
value they may have.

* **`HighPass.call`** — the closed block form the code computes;
* **`HighPass.call_eq_onePole`** — it is the one-pole recurrence `y[n] = R (y[n-1] + x[n] -
  x[n-1])`;
* **`AdaptiveVad.update`** — one frame of the detector.
-/

namespace Myna

variable {K : Type*} [Field K]

/-- What the level measurements take from the floating-point library: `_POLE` and `math.sqrt`. -/
structure Numerics (K : Type*) where
  pole : K
  sqrt : K → K

/-! ## The high-pass filter -/

/-- `_BLOCK`: samples per closed-form block. -/
def highPassBlock : ℕ := 256

structure HighPass (K : Type*) where
  prevIn : Option K
  prevOut : K

def HighPass.new : HighPass K := ⟨none, 0⟩

/-- `np.diff(x, prepend=prev)`. -/
def diffs : K → List K → List K
  | _, [] => []
  | prev, x :: xs => (x - prev) :: diffs x xs

/-- `np.cumsum`, starting from `acc`. -/
def cumsum : K → List K → List K
  | _, [] => []
  | acc, x :: xs => (acc + x) :: cumsum (acc + x) xs

/-- One block in closed form: `growth * (prev + np.cumsum(block / growth * _POLE))`, where
`growth[i] = _POLE ** (i + 1)`. -/
def highPassBlockOut (pole prev : K) (block : List K) : List K :=
  let growth := (List.range block.length).map (fun i => pole ^ (i + 1))
  List.zipWith (fun g s => g * (prev + s)) growth
    (cumsum 0 (List.zipWith (fun d g => d / g * pole) block growth))

/-- The loop over the blocks of `d`, `prev` being the last output so far; `fuel` counts blocks. -/
def highPassBlocks (pole : K) : (fuel : ℕ) → K → List K → List K
  | 0, _, _ => []
  | fuel + 1, prev, d =>
    match d with
    | [] => []
    | _ =>
      let out := highPassBlockOut pole prev (d.take highPassBlock)
      out ++ highPassBlocks pole fuel (out.getLastD prev) (d.drop highPassBlock)

/-- `HighPass.__call__`: the filter starts from its first sample. -/
def HighPass.call (num : Numerics K) (hp : HighPass K) (x : List K) : List K × HighPass K :=
  match x with
  | [] => ([], hp)
  | x0 :: _ =>
    let d := diffs (hp.prevIn.getD x0) x
    let y := highPassBlocks num.pole d.length hp.prevOut d
    (y, ⟨some (x.getLastD x0), y.getLastD hp.prevOut⟩)

/-- The recurrence the filter is for, over the differences of its input. -/
def onePole (pole : K) : K → List K → List K
  | _, [] => []
  | prev, d :: ds => pole * (prev + d) :: onePole pole (pole * (prev + d)) ds

@[simp] theorem length_diffs (prev : K) (xs : List K) : (diffs prev xs).length = xs.length := by
  induction xs generalizing prev with
  | nil => rfl
  | cons x xs ih => simp [diffs, ih]

@[simp] theorem length_onePole (pole prev : K) (ds : List K) :
    (onePole pole prev ds).length = ds.length := by
  induction ds generalizing prev with
  | nil => rfl
  | cons d ds ih => simp [onePole, ih]

theorem onePole_append (pole prev : K) (ds es : List K) :
    onePole pole prev (ds ++ es)
      = onePole pole prev ds ++ onePole pole ((onePole pole prev ds).getLastD prev) es := by
  induction ds generalizing prev with
  | nil => rfl
  | cons d ds ih =>
    simp only [List.cons_append, onePole, ih, List.getLastD_cons]

/-- The closed form of a block from growth index `n` on: with `acc` the scaled sum so far, every
output is the recurrence applied to the output before it. -/
theorem zipWith_growth_eq_onePole {pole : K} (hp : pole ≠ 0) (prev acc : K) (n : ℕ)
    (ds : List K) :
    List.zipWith (fun g s => g * (prev + s))
      ((List.range' n ds.length).map (fun i => pole ^ (i + 1)))
        (cumsum acc (List.zipWith (fun d g => d / g * pole) ds
          ((List.range' n ds.length).map (fun i => pole ^ (i + 1)))))
      = onePole pole (pole ^ n * (prev + acc)) ds := by
  induction ds generalizing n acc with
  | nil => rfl
  | cons d ds ih =>
    have hpow : pole ^ (n + 1) ≠ 0 := pow_ne_zero _ hp
    have hhead : pole ^ (n + 1) * (prev + (acc + d / pole ^ (n + 1) * pole))
        = pole * (pole ^ n * (prev + acc) + d) := by
      field_simp
      ring
    simp only [List.length_cons, List.range'_succ, List.map_cons, List.zipWith_cons_cons, cumsum,
      onePole]
    rw [ih (acc + d / pole ^ (n + 1) * pole) (n + 1), hhead]

theorem highPassBlockOut_eq_onePole {pole : K} (hp : pole ≠ 0) (prev : K) (ds : List K) :
    highPassBlockOut pole prev ds = onePole pole prev ds := by
  have h := zipWith_growth_eq_onePole hp prev 0 0 ds
  simpa [highPassBlockOut, List.range_eq_range'] using h

theorem highPassBlocks_eq_onePole {pole : K} (hp : pole ≠ 0) (fuel : ℕ) (prev : K) (ds : List K)
    (h : ds.length ≤ fuel) : highPassBlocks pole fuel prev ds = onePole pole prev ds := by
  induction fuel generalizing prev ds with
  | zero =>
    obtain rfl : ds = [] := List.length_eq_zero_iff.mp (by omega)
    rfl
  | succ fuel ih =>
    cases ds with
    | nil => rfl
    | cons d ds =>
      simp only [highPassBlocks]
      rw [highPassBlockOut_eq_onePole hp, ih]
      · rw [← onePole_append, List.take_append_drop]
      · simp only [List.length_drop, List.length_cons, highPassBlock] at h ⊢
        omega

/-- **The block form is the recurrence.** Whatever the pole, as long as it is not zero, a call
returns the one-pole high-pass of its samples and leaves the last input and output behind. -/
theorem HighPass.call_eq_onePole {num : Numerics K} (hp : num.pole ≠ 0) (f : HighPass K) (x0 : K)
    (xs : List K) :
    f.call num (x0 :: xs)
      = (onePole num.pole f.prevOut (diffs (f.prevIn.getD x0) (x0 :: xs)),
        ⟨some ((x0 :: xs).getLastD x0),
          (onePole num.pole f.prevOut (diffs (f.prevIn.getD x0) (x0 :: xs))).getLastD
            f.prevOut⟩) := by
  simp only [call]
  rw [highPassBlocks_eq_onePole hp _ _ _ le_rfl]

/-! ## The detector -/

variable [LinearOrder K]

/-- `math.sqrt(float(np.mean(frame * frame)))`. -/
def frameRms (num : Numerics K) (frame : List K) : K :=
  num.sqrt ((frame.map (fun x => x * x)).sum / frame.length)

/-- What `update` returns: `"not-started"`, `"active"` or `"silent"`. -/
inductive Activity where
  | notStarted
  | active
  | silent
deriving DecidableEq

structure AdaptiveVad (K : Type*) where
  floor : K
  smoothed : K
  started : Bool
  speechLevel : K

namespace AdaptiveVad

def new : AdaptiveVad K := ⟨3 / 1000, 0, false, 0⟩

instance atLeastTwo_hundred : Nat.AtLeastTwo 100 := ⟨by decide⟩

/-- `_SPEECH_FLOOR_RATIO`. -/
def speechFloorRatio : K := 5 / 100

/-- `_SPEECH_DECAY`, per frame. -/
def speechDecay : K := 9995 / 10000

/-- The noise floor after one frame: fast down, slow up, and only up on frames near it. -/
def trackFloor (vad : AdaptiveVad K) (rms : K) : K :=
  if rms < vad.floor then 2 / 10 * rms + 8 / 10 * vad.floor
  else
    let floorBase := max vad.floor (4 / 1000 / 5)
    if rms ≤ floorBase * 10 then 5 / 1000 * rms + 995 / 1000 * vad.floor else vad.floor

/-- `_AdaptiveVad.update`: one frame's level. -/
def update (vad : AdaptiveVad K) (rms : K) : Activity × AdaptiveVad K :=
  let floor := vad.trackFloor rms
  let smoothed := 3 / 10 * rms + 7 / 10 * vad.smoothed
  let speechThreshold := min (max (floor * 5) (4 / 1000)) (8 / 100)
  let started := vad.started || decide (speechThreshold < smoothed)
  if started then
    let speechLevel := max smoothed (vad.speechLevel * speechDecay)
    let floor := min floor (speechLevel * speechFloorRatio)
    let silenceThreshold := min (max (floor * 3) (4 / 1000 * (6 / 10))) (8 / 100 * (6 / 10))
    (if smoothed < silenceThreshold then .silent else .active,
      ⟨floor, smoothed, true, speechLevel⟩)
  else (.notStarted, ⟨floor, smoothed, false, vad.speechLevel⟩)

end AdaptiveVad

end Myna
