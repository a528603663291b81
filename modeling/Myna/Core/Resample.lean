import Myna.Core.Audio
import Myna.Lib.Polyphase
import Myna.Lib.Rounding
import Myna.Lib.Segment
import Mathlib.Algebra.Order.Floor.Defs
import Mathlib.Analysis.SpecialFunctions.Trigonometric.Sinc

/-!
# Myna — the streaming resampler (`myna.core.resample`)

A client's appends are converted chunk by chunk; the filter history and the output phase carry over,
and `flush` drains the tail. The samples are exact numbers of an ordered field `K`, rounded and
clamped once at the end. Every read of the history and of the taps is checked: the model returns
`none` where an index is out of range, a negative one included.

* **`Kernel`** — the two functions the filter is drawn from, `np.sinc` and `np.blackman`;
* **`Filter`** — the rates in lowest terms and the taps;
* **`Resampler.feed`**, **`Resampler.flush`** — the converter;
* **`Filter.convolved`** — output `k` as a convolution sum over the whole input;
* **`produce_spec`** — what one pass emits and keeps;
* **`convert_stream`** — however the bytes are split, the outputs are the rounded convolution sums.
-/

namespace Myna

open Polyphase Segment

/-! ## The filter -/

/-- `_HALF_WINDOW`, in zero crossings at the lower rate. -/
def HALF_WINDOW : ℕ := 32

/-- `_BLOCK_SAMPLES`: input samples converted per step. -/
def BLOCK_SAMPLES : ℕ := 2048

/-- `np.sinc` and `np.blackman`: what the taps are computed from. -/
structure Kernel (K : Type*) [Field K] where
  sinc : K → K
  blackman : (taps i : ℕ) → K
  sinc_zero : sinc 0 = 1
  sinc_intCast : ∀ n : ℤ, n ≠ 0 → sinc n = 0
  blackman_centre : ∀ d, 0 < d → blackman (2 * d + 1) d = 1

/-- The functions as NumPy documents them. -/
noncomputable def Kernel.real : Kernel ℝ where
  sinc x := Real.sinc (Real.pi * x)
  blackman taps i :=
    let n : ℝ := 1 - taps + 2 * i
    0.42 + 0.5 * Real.cos (Real.pi * n / (taps - 1)) + 0.08 * Real.cos
      (2 * Real.pi * n / (taps - 1))
  sinc_zero := by simp
  sinc_intCast n hn := by
    have hne : Real.pi * (n : ℝ) ≠ 0 := mul_ne_zero Real.pi_ne_zero (by exact_mod_cast hn)
    rw [Real.sinc_of_ne_zero hne, mul_comm, Real.sin_int_mul_pi, zero_div]
  blackman_centre d _ := by
    have hcentre : (1 : ℝ) - ((2 * d + 1 : ℕ) : ℝ) + 2 * d = 0 := by
      push_cast
      ring
    dsimp only
    rw [hcentre]
    norm_num

/-- The two rates in lowest terms: `up` outputs (`L`) for `down` inputs (`M`). -/
structure Rates where
  up : ℕ
  down : ℕ
  up_pos : 0 < up
  down_pos : 0 < down

namespace Rates

variable (rates : Rates)

def identity : Bool := decide (rates.up = rates.down)

def taps : ℕ := 2 * HALF_WINDOW * max rates.up rates.down + 1

def delay : ℕ := (rates.taps - 1) / 2

/-- Input samples per output. -/
def perOutput : ℕ := (ceilDiv rates.taps rates.up).toNat

theorem delay_eq : rates.delay = HALF_WINDOW * max rates.up rates.down := by
  rw [delay, taps, Nat.add_sub_cancel, mul_assoc, Nat.mul_div_cancel_left _ (by decide)]

theorem taps_eq : rates.taps = 2 * rates.delay + 1 := by
  rw [delay_eq, taps, mul_assoc]

/-- Rates of a conversion from `src` to `dst`. -/
def reduce (src dst : ℕ) (hsrc : 0 < src) (hdst : 0 < dst) : Rates where
  up := dst / Nat.gcd src dst
  down := src / Nat.gcd src dst
  up_pos := Nat.div_pos (Nat.gcd_le_right _ hdst) (Nat.gcd_pos_of_pos_left _ hsrc)
  down_pos := Nat.div_pos (Nat.gcd_le_left _ hsrc) (Nat.gcd_pos_of_pos_left _ hsrc)

end Rates

section

variable {K : Type*} [Field K] [LinearOrder K]

/-- The windowed sinc before it is scaled. -/
def rawTaps (kernel : Kernel K) (rates : Rates) : List K :=
  let cutoff : K := min (1 / (rates.up : K)) (1 / (rates.down : K)) / 2
  (List.range rates.taps).map fun i : ℕ =>
    2 * cutoff * kernel.sinc (2 * cutoff * ((i : K) - rates.delay)) * kernel.blackman rates.taps i

/-- The taps at the high rate, gain `up`, and one zero tap past the end. -/
def firTaps (kernel : Kernel K) (rates : Rates) : List K :=
  let h := rawTaps kernel rates
  h.map (fun t => t * (rates.up / h.sum)) ++ [0]

end

/-- The rates and the taps of a converter. -/
structure Filter (K : Type*) [Zero K] extends Rates where
  h : List K
  h_length : h.length = toRates.taps + 1
  h_last : h[toRates.taps]? = some 0

/-- The filter the constructor computes. -/
def Filter.make {K : Type*} [Field K] [LinearOrder K] (kernel : Kernel K) (rates : Rates) :
    Filter K where
  toRates := rates
  h := firTaps kernel rates
  h_length := by simp [firTaps, rawTaps]
  h_last := by
    rw [firTaps, List.getElem?_append_right (by simp [rawTaps])]
    simp [rawTaps]

/-! ## The converter -/

/-- A converter: its filter, the bytes of half a sample, the history, and where the history and the
output stand in the stream. -/
structure Resampler (K : Type*) [Zero K] extends Filter K where
  framer : PcmFramer
  buf : List K
  base : ℤ
  nextOut : ℤ

/-- `np.clip(np.rint(y), -32768, 32767)`. -/
def quantise {K : Type*} [Field K] [LinearOrder K] [FloorRing K] (y : K) : ℤ :=
  max (-32768) (min (roundHalfEven y) 32767)

/-- A read of an array at an index that must lie in it. -/
def readAt {α : Type*} (xs : List α) (i : ℤ) : Option α :=
  if i < 0 then none else xs[i.toNat]?

namespace Resampler

variable {K : Type*} [Field K] [LinearOrder K]

/-- `_reset`. -/
def reset (r : Resampler K) : Resampler K := { r with buf := [], base := 0, nextOut := 0 }

/-- A converter before its first feed. -/
def start (filter : Filter K) : Resampler K where
  toFilter := filter
  framer := { frameBytes := 2 }
  buf := []
  base := 0
  nextOut := 0

/-- `Resampler(src_hz, dst_hz)`. -/
def new (kernel : Kernel K) (srcHz dstHz : ℤ) : Except String (Resampler K) :=
  if h : 0 < srcHz ∧ 0 < dstHz then
    .ok (start (.make kernel (.reduce srcHz.toNat dstHz.toNat (by omega) (by omega))))
  else .error s!"sample rates must be positive, got {srcHz} -> {dstHz}"

/-- One output before rounding: the gathered history times the gathered taps. -/
def gather (r : Resampler K) (k : ℤ) : Option K := do
  let firstIn := firstIn r.up r.down r.delay r.taps k
  let terms ← (List.range r.perOutput).mapM fun i : ℕ => do
    let n := firstIn + i
    let j := k * r.down + r.delay - n * r.up
    let j := if j < 0 then (r.taps : ℤ) else j
    let idx := n - r.base
    let held ← readAt r.buf (min (max idx 0) (r.buf.length - 1))
    let x := if idx < 0 then 0 else held
    let h ← readAt r.h j
    some (x * h)
  some terms.sum

variable [FloorRing K]

/-- `_produce`: every output the history allows, and the history the next ones need. -/
def produce (r : Resampler K) : Option (Bytes × Resampler K) :=
  let lastIn := r.base + r.buf.length - 1
  let lastOut := ceilDiv ((lastIn + 1) * r.up - r.delay) r.down - 1
  if lastOut < r.nextOut then some ([], r)
  else do
    let ks := (List.range (lastOut + 1 - r.nextOut).toNat).map fun i : ℕ => r.nextOut + i
    let y ← ks.mapM r.gather
    let keep := firstIn r.up r.down r.delay r.taps (lastOut + 1)
    let kept : Resampler K :=
      if r.base < keep then { r with buf := r.buf.drop (keep - r.base).toNat, base := keep } else r
    some (encodeInt16 (y.map quantise), { kept with nextOut := lastOut + 1 })

/-- One block of a feed. -/
def feedBlock (r : Resampler K) (block : List K) : Option (Bytes × Resampler K) :=
  produce { r with buf := r.buf ++ block }

def feedBlocks (r : Resampler K) : List (List K) → Option (Bytes × Resampler K)
  | [] => some ([], r)
  | block :: rest => do
    let (out, r) ← r.feedBlock block
    let (outs, r) ← feedBlocks r rest
    some (out ++ outs, r)

/-- `feed`: convert what can be converted so far; the rest waits for more. -/
def feed (r : Resampler K) (pcm : Bytes) : Option (Bytes × Resampler K) :=
  let (whole, framer) := r.framer.feed pcm
  let r := { r with framer := framer }
  if r.identity then some (whole, r)
  else r.feedBlocks (blocks BLOCK_SAMPLES ((decodeInt16 whole).map (Int.cast : ℤ → K)))

/-- `flush`: drain the tail and start afresh. -/
def flush (r : Resampler K) : Option (Bytes × Resampler K) :=
  let r := { r with framer := r.framer.flush }
  if r.identity then some ([], r)
  else
    let total := r.base + r.buf.length
    let lastOut := ceilDiv (total * r.up) r.down - 1
    let need := (lastOut * r.down + r.delay) / r.up
    let pad := need - (total - 1)
    let r := if 0 < pad then { r with buf := r.buf ++ List.replicate pad.toNat 0 } else r
    do
      let (out, r) ← r.produce
      some (out, r.reset)

/-- An utterance: its chunks one by one, and the flush. -/
def convert (r : Resampler K) : List Bytes → Option (Bytes × Resampler K)
  | [] => r.flush
  | pcm :: rest => do
    let (out, r) ← r.feed pcm
    let (outs, r) ← convert r rest
    some (out ++ outs, r)

end Resampler

/-! ## Reads -/

theorem readAt_of_nonneg {α : Type*} {xs : List α} {i : ℤ} (hi : 0 ≤ i) :
    readAt xs i = xs[i.toNat]? :=
  if_neg (not_lt.mpr hi)

/-- A loop whose every round returns a value returns them all. -/
theorem mapM_eq_some {α β : Type*} {f : α → Option β} {g : α → β} {l : List α}
    (h : ∀ a ∈ l, f a = some (g a)) : l.mapM f = some (l.map g) := by
  induction l with
  | nil => rfl
  | cons a l ih =>
    rw [List.mapM_cons, h a List.mem_cons_self, ih fun b hb => h b (List.mem_cons_of_mem a hb)]
    rfl

/-! ## What an output is -/

namespace Filter

variable {K : Type*} [Field K] (f : Filter K)

/-- The tap at `j`, zero outside the filter. -/
def tap (j : ℤ) : K := if 0 ≤ j ∧ j < f.taps then f.h.getD j.toNat 0 else 0

/-- Output `k` of the signal `x`: its convolution with the taps at the high rate. -/
noncomputable def convolved (x : ℤ → K) (k : ℤ) : K :=
  ∑ n ∈ Finset.Ico (firstIn f.up f.down f.delay f.taps k)
    (firstIn f.up f.down f.delay f.taps k + f.perOutput),
      x n * f.tap (k * f.down + f.delay - n * f.up)

variable {f}

theorem up_pos' : (0 : ℤ) < f.up := by exact_mod_cast f.up_pos

theorem down_pos' : (0 : ℤ) < f.down := by exact_mod_cast f.down_pos

theorem taps_eq' : (f.taps : ℤ) = 2 * f.delay + 1 := by exact_mod_cast f.taps_eq

/-- The delay outweighs a step of either rate. -/
theorem le_delay : (f.up : ℤ) ≤ f.delay ∧ (f.down : ℤ) ≤ f.delay := by
  have hdelay := f.delay_eq
  have hup := le_max_left f.up f.down
  have hdown := le_max_right f.up f.down
  rw [HALF_WINDOW] at hdelay
  omega

/-- The gathered index is in the taps, and reads what the filter has there. -/
theorem readAt_h {j : ℤ} (hj : j < f.taps) :
    readAt f.h (if j < 0 then (f.taps : ℤ) else j) = some (f.tap j) := by
  rw [tap]
  split_ifs with hneg hin hin
  · omega
  · rw [readAt_of_nonneg (by omega), Int.toNat_natCast]
    exact f.h_last
  · rw [readAt_of_nonneg (by omega), List.getD_eq_getElem?_getD]
    have hlt : j.toNat < f.h.length := by
      have := f.h_length
      omega
    rw [List.getElem?_eq_getElem hlt, Option.getD_some]
  · omega

/-- A tap before the window is zero. -/
theorem tap_neg {j : ℤ} (hj : j < 0) : f.tap j = 0 := if_neg (by omega)

/-- A tap past the window is zero. -/
theorem tap_ge {j : ℤ} (hj : f.taps ≤ j) : f.tap j = 0 := if_neg (by omega)

/-- The window of an output holds every input that meets a tap, so the sum may run over any range
that holds the signal. -/
theorem convolved_eq_sum {x : ℤ → K} {lo hi : ℤ} (hx : ∀ n, x n ≠ 0 → lo ≤ n ∧ n < hi) (k : ℤ) :
    f.convolved x k = ∑ n ∈ Finset.Ico lo hi, x n * f.tap (k * f.down + f.delay - n * f.up) := by
  refine sum_Ico_eq_sum_Ico (fun n hn => ?_) (fun n hn => hx n (left_ne_zero_of_mul hn))
  have htap := right_ne_zero_of_mul hn
  have hlo : 0 ≤ k * f.down + f.delay - n * f.up := by
    by_contra hneg
    exact htap (tap_neg (not_le.mp hneg))
  have hhi : k * f.down + f.delay - n * f.up < f.taps := by
    by_contra hge
    exact htap (tap_ge (not_lt.mp hge))
  have hcount : (f.perOutput : ℤ) = ceilDiv f.taps f.up := by
    rw [Rates.perOutput, Int.toNat_of_nonneg]
    have hpos := (lt_ceilDiv_iff (c := -1) (a := f.taps) (up_pos' (f := f))).mpr (by
      have := up_pos' (f := f)
      have htaps := taps_eq' (f := f)
      omega)
    omega
  refine ⟨(firstIn_le_iff up_pos').mpr hhi, ?_⟩
  rw [hcount]
  exact lt_firstIn_add up_pos' hlo

end Filter

/-! ## What the converter holds -/

namespace Resampler

variable {K : Type*} [Field K] {r : Resampler K} {x : ℤ → K} {total : ℤ}

/-- Of the signal `x`, which is zero before it starts and of which `total` samples have arrived, the
converter holds all that its next outputs need. -/
structure Carries (x : ℤ → K) (total : ℤ) (r : Resampler K) : Prop where
  past : ∀ n < 0, x n = 0
  total_eq : r.base + r.buf.length = total
  base_nonneg : 0 ≤ r.base
  held : ∀ i : ℕ, i < r.buf.length → r.buf[i]? = some (x (r.base + i))
  kept : r.base = 0 ∨ r.base ≤ firstIn r.up r.down r.delay r.taps r.nextOut
  next_nonneg : 0 ≤ r.nextOut
  due : r.nextOut ≤ ceilDiv (total * r.up) r.down

/-- An output that is due has an input to read. -/
theorem Carries.buf_pos (h : Carries x total r) {k : ℤ} (hk : r.nextOut ≤ k)
    (hdue : k * r.down + r.delay < total * r.up) : 0 < r.buf.length := by
  by_contra hempty
  have htotal := h.total_eq
  obtain ⟨hup, hdown⟩ := Filter.le_delay (f := r.toFilter)
  have hpos := Filter.down_pos' (f := r.toFilter)
  rcases h.kept with hzero | hkept
  · have htotal0 : total = 0 := by omega
    have hk0 := mul_nonneg (h.next_nonneg.trans hk) hpos.le
    rw [htotal0, zero_mul] at hdue
    linarith
  · -- the history would begin past the last input of output `k`
    have hfirst := hkept.trans (firstIn_mono (Filter.up_pos' (f := r.toFilter)) hpos.le hk)
    have hlast : total - 1 < firstIn r.up r.down r.delay r.taps k := by omega
    rw [firstIn, lt_ceilDiv_iff Filter.up_pos', sub_one_mul] at hlast
    have htaps := Filter.taps_eq' (f := r.toFilter)
    have hup' := Filter.up_pos' (f := r.toFilter)
    linarith

/-- **An output that is due reads no index out of range**, and it is the convolution sum. -/
theorem Carries.gather [LinearOrder K] (h : Carries x total r) {k : ℤ} (hk : r.nextOut ≤ k)
    (hdue : k * r.down + r.delay < total * r.up) : r.gather k = some (r.convolved x k) := by
  have hlen := h.buf_pos hk hdue
  have htotal := h.total_eq
  have hup := Filter.up_pos' (f := r.toFilter)
  have hdown := Filter.down_pos' (f := r.toFilter)
  set first := firstIn r.up r.down r.delay r.taps k with hfirst
  have hterm : ∀ i ∈ List.range r.perOutput, (do
      let n := first + i
      let j := k * r.down + r.delay - n * r.up
      let j := if j < 0 then (r.taps : ℤ) else j
      let idx := n - r.base
      let held ← readAt r.buf (min (max idx 0) (r.buf.length - 1))
      let x := if idx < 0 then 0 else held
      let h ← readAt r.h j
      some (x * h)) = some (x (first + i) * r.tap (k * r.down + r.delay - (first + i) * r.up)) := by
    intro i _
    set n := first + (i : ℤ) with hn
    have hj : k * r.down + r.delay - n * r.up < r.taps :=
      (firstIn_le_iff hup).mp (by omega)
    have hread : ∃ held, readAt r.buf (min (max (n - r.base) 0) (r.buf.length - 1)) = some held ∧
        (if n - r.base < 0 then 0 else held) * r.tap (k * r.down + r.delay - n * r.up)
          = x n * r.tap (k * r.down + r.delay - n * r.up) := by
      have hin : (min (max (n - r.base) 0) (r.buf.length - 1 : ℤ)).toNat < r.buf.length := by omega
      refine ⟨_, (readAt_of_nonneg (by omega)).trans (h.held _ hin), ?_⟩
      by_cases hbefore : n - r.base < 0
      · -- only silence comes before the history
        have hpast : x n = 0 := by
          refine h.past n ?_
          rcases h.kept with hzero | hkept
          · omega
          · have hmono := hkept.trans (firstIn_mono hup hdown.le hk)
            omega
        rw [if_pos hbefore, hpast]
      · rw [if_neg hbefore]
        by_cases hafter : n < total
        · congr 2
          omega
        · -- the window ends before the input runs out
          have hneg : k * r.down + r.delay - n * r.up < 0 := by
            have hmul := mul_le_mul_of_nonneg_right (not_lt.mp hafter) hup.le
            linarith
          rw [Filter.tap_neg hneg, mul_zero, mul_zero]
    obtain ⟨held, hheld, hval⟩ := hread
    simp only [hheld, Filter.readAt_h hj, Option.bind_eq_bind, Option.bind_some]
    rw [hval]
  rw [Resampler.gather, mapM_eq_some hterm, Filter.convolved, ← hfirst, ← sum_map_range]
  rfl

/-! ## Passes -/

section

variable [LinearOrder K] [FloorRing K]

/-- The bytes of the outputs `[a, b)` of the signal. -/
noncomputable def emitted (f : Filter K) (x : ℤ → K) (a b : ℤ) : Bytes :=
  encodeInt16 ((List.range (b - a).toNat).map fun i : ℕ => quantise (f.convolved x (a + i)))

theorem emitted_self (f : Filter K) (x : ℤ → K) (a : ℤ) : emitted f x a a = [] := by
  rw [emitted, Int.sub_self]
  rfl

theorem emitted_append (f : Filter K) (x : ℤ → K) {a b c : ℤ} (hab : a ≤ b) (hbc : b ≤ c) :
    emitted f x a b ++ emitted f x b c = emitted f x a c := by
  have hsplit : (c - a).toNat = (b - a).toNat + (c - b).toNat := by omega
  rw [emitted, emitted, emitted, hsplit, List.range_add, List.map_append, encodeInt16, encodeInt16,
    encodeInt16, List.flatMap_append, List.map_map]
  congr 3
  funext i
  show quantise (f.convolved x (b + i)) = quantise (f.convolved x (a + ((b - a).toNat + i : ℕ)))
  congr 2
  push_cast
  omega

/-- **One pass** emits every output the history allows, keeps what the next ones need, and reads no
index out of range. -/
theorem produce_spec (h : Carries x total r) :
    let next := max r.nextOut (ceilDiv (total * r.up - r.delay) r.down)
    ∃ buf base, r.produce = some (emitted r.toFilter x r.nextOut next,
        { r with buf := buf, base := base, nextOut := next }) ∧
      Carries x total { r with buf := buf, base := base, nextOut := next } := by
  intro next
  have hup := Filter.up_pos' (f := r.toFilter)
  have hdown := Filter.down_pos' (f := r.toFilter)
  obtain ⟨hupd, hdownd⟩ := Filter.le_delay (f := r.toFilter)
  have htotal := h.total_eq
  have hlast : r.base + r.buf.length - 1 + 1 = total := by omega
  set last := ceilDiv (total * r.up - r.delay) r.down with hlast'
  by_cases hnone : last - 1 < r.nextOut
  · -- nothing is due
    have hnext : next = r.nextOut := max_eq_left (by omega)
    refine ⟨r.buf, r.base, ?_, ?_⟩
    · rw [hnext, emitted_self, Resampler.produce]
      simp only [hlast, ← hlast', if_pos hnone]
    · rw [hnext]
      exact h
  · have hnext : next = last := max_eq_right (by omega)
    have hdue : ∀ k, k < last → k * r.down + r.delay < total * r.up := by
      intro k hk
      have hlt := (lt_ceilDiv_iff hdown).mp hk
      linarith
    set keep := firstIn r.up r.down r.delay r.taps last with hkeep
    -- the outputs
    have hgather : ((List.range (last - r.nextOut).toNat).map fun i : ℕ => r.nextOut + (i : ℤ)).mapM
        r.gather = some (((List.range (last - r.nextOut).toNat).map
          fun i : ℕ => r.nextOut + (i : ℤ)).map (r.convolved x)) := by
      refine mapM_eq_some fun k hk => ?_
      obtain ⟨i, hi, rfl⟩ := List.mem_map.mp hk
      rw [List.mem_range] at hi
      exact h.gather (by omega) (hdue _ (by omega))
    -- what is kept lies in the history
    have hkept : keep ≤ total := by
      have hlt := hdue (last - 1) (by omega)
      have htaps := Filter.taps_eq' (f := r.toFilter)
      rw [hkeep, firstIn, ceilDiv_le_iff hup]
      rw [sub_one_mul] at hlt
      linarith
    have hkeep_ge : firstIn r.up r.down r.delay r.taps r.nextOut ≤ keep :=
      firstIn_mono hup hdown.le (show r.nextOut ≤ last by omega)
    refine ⟨if r.base < keep then r.buf.drop (keep - r.base).toNat else r.buf,
      if r.base < keep then keep else r.base, ?_, ?_⟩
    · rw [Resampler.produce]
      have hcount : last - 1 + 1 = last := by omega
      simp only [hlast, ← hlast', if_neg hnone, hcount, hgather, ← hkeep, hnext, emitted,
        Option.bind_eq_bind, Option.bind_some, List.map_map]
      split_ifs <;> rfl
    · rw [hnext]
      have hdue' : last ≤ ceilDiv (total * r.up) r.down :=
        ceilDiv_mono hdown (by linarith)
      have hpos := h.next_nonneg
      split_ifs with hdrop
      · refine ⟨h.past, ?_, ?_, ?_, Or.inr le_rfl, by show 0 ≤ last; omega, hdue'⟩
        · show keep + (r.buf.drop (keep - r.base).toNat).length = total
          rw [List.length_drop]
          omega
        · have := h.base_nonneg
          show 0 ≤ keep
          omega
        · intro i hi
          show (r.buf.drop (keep - r.base).toNat)[i]? = some (x (keep + i))
          have hlt : (keep - r.base).toNat + i < r.buf.length := by
            rw [List.length_drop] at hi
            omega
          rw [List.getElem?_drop, h.held _ hlt]
          congr 2
          push_cast
          omega
      · exact ⟨h.past, h.total_eq, h.base_nonneg, h.held, h.kept.imp_right fun hle =>
          hle.trans hkeep_ge,
          by show 0 ≤ last; omega, hdue'⟩

omit [LinearOrder K] [FloorRing K] in
/-- Samples of the signal that arrive are held. -/
theorem Carries.receive (h : Carries x total r) {block : List K}
    (hblock : ∀ i : ℕ, i < block.length → block[i]? = some (x (total + i))) :
    Carries x (total + block.length) { r with buf := r.buf ++ block } := by
  have htotal := h.total_eq
  refine ⟨h.past, ?_, h.base_nonneg, ?_, h.kept, h.next_nonneg, h.due.trans ?_⟩
  · show r.base + (r.buf ++ block).length = _
    rw [List.length_append]
    omega
  · intro i hi
    show (r.buf ++ block)[i]? = some (x (r.base + i))
    rcases lt_or_ge i r.buf.length with hold | hnew
    · rw [List.getElem?_append_left hold]
      exact h.held i hold
    · rw [List.length_append] at hi
      rw [List.getElem?_append_right hnew, hblock _ (by omega)]
      congr 2
      omega
  · refine ceilDiv_mono Filter.down_pos' (mul_le_mul_of_nonneg_right ?_ Filter.up_pos'.le)
    omega

/-- The blocks of a feed emit the outputs they make due. -/
theorem feedBlocks_spec (bs : List (List K)) :
    ∀ {r : Resampler K} {total : ℤ}, Carries x total r →
      (∀ i : ℕ, i < bs.flatten.length → bs.flatten[i]? = some (x (total + i))) →
      ∃ buf base next, r.nextOut ≤ next ∧
        r.feedBlocks bs = some (emitted r.toFilter x r.nextOut next,
          { r with buf := buf, base := base, nextOut := next }) ∧
        Carries x (total + bs.flatten.length)
          { r with buf := buf, base := base, nextOut := next } := by
  induction bs with
  | nil =>
    intro r total h _
    refine ⟨r.buf, r.base, r.nextOut, le_rfl, ?_, ?_⟩
    · rw [emitted_self]
      rfl
    · simpa using h
  | cons block rest ih =>
    intro r total h hbs
    simp only [List.flatten_cons, List.length_append] at hbs ⊢
    have hfirst := h.receive (fun (i : ℕ) (hi : i < block.length) => by
      have hi' := hbs i (by omega)
      rwa [List.getElem?_append_left hi] at hi')
    obtain ⟨buf, base, hpass, hcarries⟩ := produce_spec hfirst
    obtain ⟨buf', base', next, hle, hrest, hcarries'⟩ := ih hcarries (fun i hi => by
      have hi' := hbs (block.length + i) (by omega)
      rw [List.getElem?_append_right (by omega), Nat.add_sub_cancel_left] at hi'
      rw [hi', Nat.cast_add, add_assoc])
    refine ⟨buf', base', next, le_trans (le_max_left _ _) hle, ?_, ?_⟩
    · have hjoin := emitted_append r.toFilter x (le_max_left _ _) hle
      rw [feedBlocks, feedBlock, hpass]
      simp only [Option.bind_eq_bind, Option.bind_some, hrest]
      rw [← hjoin]
    · rw [Nat.cast_add, ← add_assoc]
      exact hcarries'

/-! ## Utterances -/

/-- The signal of an utterance: its samples, silence before and after. -/
def signal (K : Type*) [Field K] (stream : Bytes) (n : ℤ) : K :=
  if n < 0 then 0 else (((decodeInt16 stream)[n.toNat]?.getD 0 : ℤ) : K)

/-- The framer after the bytes `fed`: what it carries of them. -/
def Framed (fed : Bytes) (framer : PcmFramer) : Prop :=
  framer = { frameBytes := 2, pending := fed.drop (2 * (fed.length / 2)) }

omit [LinearOrder K] [FloorRing K] in
/-- What the framer hands on: the whole samples that `pcm` completes. -/
theorem framed_feed {fed : Bytes} {framer : PcmFramer} (h : Framed fed framer) (pcm : Bytes) :
    Framed (fed ++ pcm) (framer.feed pcm).2 ∧
      (framer.feed pcm).1 = ((fed ++ pcm).take (2 * ((fed ++ pcm).length / 2))).drop
        (2 * (fed.length / 2)) := by
  have hdata : fed.drop (2 * (fed.length / 2)) ++ pcm
      = (fed ++ pcm).drop (2 * (fed.length / 2)) := by
    rw [List.drop_append_of_le_length (by omega)]
  subst h
  rw [PcmFramer.feed]
  dsimp only
  rw [hdata]
  simp only [List.length_drop, List.length_append]
  constructor
  · rw [Framed, List.drop_drop, List.length_append]
    congr 2
    omega
  · rw [List.drop_take]
    congr 1
    omega

/-- **A feed** emits the outputs its samples make due. -/
theorem feed_spec {stream fed pcm rest : Bytes} (hstream : stream = fed ++ pcm ++ rest)
    (hid : r.identity = false) (hframed : Framed fed r.framer)
    (h : Carries (signal K stream) ((fed.length / 2 : ℕ) : ℤ) r) :
    ∃ framer buf base next, r.nextOut ≤ next ∧ Framed (fed ++ pcm) framer ∧
      r.feed pcm = some (emitted r.toFilter (signal K stream) r.nextOut next,
        { r with framer := framer, buf := buf, base := base, nextOut := next }) ∧
      Carries (signal K stream) (((fed ++ pcm).length / 2 : ℕ) : ℤ)
        { r with framer := framer, buf := buf, base := base, nextOut := next } := by
  obtain ⟨hframed', hwhole⟩ := framed_feed hframed pcm
  set whole := (r.framer.feed pcm).1 with hwhole'
  set framer := (r.framer.feed pcm).2 with hframer
  -- the samples handed on, as samples of the stream
  have hsamples : decodeInt16 whole
      = ((decodeInt16 stream).take ((fed ++ pcm).length / 2)).drop (fed.length / 2) := by
    rw [hwhole, decodeInt16_drop, decodeInt16_take, hstream, decodeInt16_append_take,
      List.take_of_length_le (by simp)]
  have hlen : (decodeInt16 whole).length = (fed ++ pcm).length / 2 - fed.length / 2 := by
    rw [hsamples, List.length_drop, List.length_take, length_decodeInt16, hstream]
    simp only [List.length_append]
    omega
  have hflatten : (blocks BLOCK_SAMPLES ((decodeInt16 whole).map (Int.cast : ℤ → K))).flatten
      = (decodeInt16 whole).map Int.cast := flatten_blocks (by decide) _
  have hheld : Carries (signal K stream) ((fed.length / 2 : ℕ) : ℤ) { r with framer := framer } :=
    ⟨h.past, h.total_eq, h.base_nonneg, h.held, h.kept, h.next_nonneg, h.due⟩
  obtain ⟨buf, base, next, hle, hblocks, hcarries⟩ := feedBlocks_spec
    (blocks BLOCK_SAMPLES ((decodeInt16 whole).map (Int.cast : ℤ → K))) hheld (by
      intro i hi
      rw [hflatten, List.length_map, hlen] at hi
      rw [hflatten, List.getElem?_map, hsamples, List.getElem?_drop,
        List.getElem?_take_of_lt (by omega), signal, if_neg (by omega)]
      have hlt : fed.length / 2 + i < (decodeInt16 stream).length := by
        rw [length_decodeInt16, hstream]
        simp only [List.length_append] at hi ⊢
        omega
      have hnat : (((fed.length / 2 : ℕ) : ℤ) + (i : ℤ)).toNat = fed.length / 2 + i := by omega
      rw [hnat, List.getElem?_eq_getElem hlt]
      rfl)
  refine ⟨framer, buf, base, next, hle, hframed', ?_, ?_⟩
  · rw [Resampler.feed]
    simp only [← hwhole', ← hframer, hid]
    exact hblocks
  · have htotal : ((fed.length / 2 : ℕ) : ℤ) + (blocks BLOCK_SAMPLES
        ((decodeInt16 whole).map (Int.cast : ℤ → K))).flatten.length
        = (((fed ++ pcm).length / 2 : ℕ) : ℤ) := by
      rw [hflatten, List.length_map, hlen, List.length_append]
      omega
    rw [htotal] at hcarries
    exact hcarries

omit [LinearOrder K] [FloorRing K] in
/-- The padding of a flush makes exactly the outputs up to `last` due, the last one the input is. -/
theorem ceilDiv_padded (f : Filter K) (total : ℤ) :
    let last := ceilDiv (total * f.up) f.down
    let need := ((last - 1) * f.down + f.delay) / f.up
    total ≤ need ∧ ceilDiv ((need + 1) * f.up - f.delay) f.down = last := by
  intro last need
  have hup := Filter.up_pos' (f := f)
  have hdown := Filter.down_pos' (f := f)
  obtain ⟨hupd, hdownd⟩ := Filter.le_delay (f := f)
  have hlast : total * f.up ≤ last * f.down := (ceilDiv_le_iff hdown).mp le_rfl
  have hprev : (last - 1) * f.down < total * f.up := (lt_ceilDiv_iff hdown).mp (by omega)
  have hneed : need * f.up ≤ (last - 1) * f.down + f.delay := Int.ediv_mul_le _ hup.ne'
  have hnext : (last - 1) * f.down + f.delay < (need + 1) * f.up :=
    Int.lt_ediv_add_one_mul_self _ hup
  rw [sub_one_mul] at hprev hneed hnext
  refine ⟨(Int.le_ediv_iff_mul_le hup).mpr (by rw [sub_one_mul]; linarith), ceilDiv_eq hdown ?_ ?_⟩
  · rw [sub_one_mul]
    linarith
  · rcases le_or_gt (f.up : ℤ) f.down with hle | hgt
    · rw [add_one_mul]
      linarith
    · -- upsampling: the delay is a whole number of inputs
      have hdelay : (f.delay : ℤ) = 32 * f.up := by
        have hdelay' := f.delay_eq
        rw [HALF_WINDOW, max_eq_left (by omega)] at hdelay'
        omega
      have hneed' : need < total + 32 := by
        refine Int.ediv_lt_of_lt_mul hup ?_
        rw [sub_one_mul, add_mul]
        linarith
      have hmul := mul_le_mul_of_nonneg_right (show need + 1 ≤ total + 32 by omega) hup.le
      rw [add_mul total] at hmul
      linarith

omit [LinearOrder K] [FloorRing K] in
theorem signal_eq_zero {stream : Bytes} {n : ℤ} (h : n < 0 ∨ ((stream.length / 2 : ℕ) : ℤ) ≤ n) :
    signal K stream n = 0 := by
  rw [signal]
  split_ifs with hneg
  · rfl
  · rw [List.getElem?_eq_none (by rw [length_decodeInt16]; omega), Option.getD_none, Int.cast_zero]

/-- **A flush** emits the rest, up to the last output the input is due, and starts afresh. -/
theorem flush_spec {stream : Bytes} (hid : r.identity = false)
    (hframed : Framed stream r.framer)
    (h : Carries (signal K stream) ((stream.length / 2 : ℕ) : ℤ) r) :
    r.nextOut ≤ ceilDiv ((stream.length / 2 : ℕ) * r.up) r.down ∧
    r.flush = some (emitted r.toFilter (signal K stream) r.nextOut
      (ceilDiv ((stream.length / 2 : ℕ) * r.up) r.down), start r.toFilter) := by
  refine ⟨h.due, ?_⟩
  obtain ⟨hpad, hlast⟩ := ceilDiv_padded r.toFilter ((stream.length / 2 : ℕ) : ℤ)
  have hdue := h.due
  have htotal := h.total_eq
  set total : ℤ := ((stream.length / 2 : ℕ) : ℤ) with htotal'
  set last := ceilDiv (total * r.up) r.down with hlast'
  set need := ((last - 1) * r.down + r.delay) / r.up with hneed
  -- the padding is silence, which the signal has there
  have hheld : Carries (signal K stream) total { r with framer := r.framer.flush } :=
    ⟨h.past, h.total_eq, h.base_nonneg, h.held, h.kept, h.next_nonneg, h.due⟩
  have hpadded := hheld.receive (fun (i : ℕ)
      (hi : i < (List.replicate (need - (total - 1)).toNat (0 : K)).length) => by
    rw [List.length_replicate] at hi
    rw [List.getElem?_replicate_of_lt hi, signal_eq_zero (Or.inr (by omega))])
  have hlen : total + (List.replicate (need - (total - 1)).toNat (0 : K)).length = need + 1 := by
    rw [List.length_replicate]
    omega
  rw [hlen] at hpadded
  obtain ⟨buf, base, hproduce, -⟩ := produce_spec hpadded
  rw [hlast, max_eq_right hdue] at hproduce
  have hframer : r.framer.flush = { frameBytes := 2 } := by
    rw [hframed]
    rfl
  rw [Resampler.flush]
  simp only [hid, htotal, ← hlast', ← hneed, if_pos (show 0 < need - (total - 1) by omega),
    hproduce, Option.bind_eq_bind, Option.bind_some]
  rw [reset, hframer]
  rfl

/-- The outputs of an utterance, from the state any prefix of it left. -/
theorem convert_spec {stream : Bytes} (chunks : List Bytes) :
    ∀ {r : Resampler K} {fed : Bytes}, r.identity = false → stream = fed ++ chunks.flatten →
      Framed fed r.framer → Carries (signal K stream) ((fed.length / 2 : ℕ) : ℤ) r →
      r.nextOut ≤ ceilDiv ((stream.length / 2 : ℕ) * r.up) r.down ∧
      r.convert chunks = some (emitted r.toFilter (signal K stream) r.nextOut
        (ceilDiv ((stream.length / 2 : ℕ) * r.up) r.down), start r.toFilter) := by
  induction chunks with
  | nil =>
    intro r fed hid hstream hframed h
    rw [List.flatten_nil, List.append_nil] at hstream
    subst hstream
    exact flush_spec hid hframed h
  | cons pcm rest ih =>
    intro r fed hid hstream hframed h
    rw [List.flatten_cons, ← List.append_assoc] at hstream
    obtain ⟨framer, buf, base, next, hle, hframed', hfeed, hcarries⟩ :=
      feed_spec hstream hid hframed h
    obtain ⟨hdue, hrest⟩ := ih (r := { r with
      framer := framer, buf := buf, base := base, nextOut := next }) hid hstream hframed' hcarries
    have hjoin := emitted_append r.toFilter (signal K stream) hle hdue
    refine ⟨hle.trans hdue, ?_⟩
    rw [convert, hfeed]
    simp only [Option.bind_eq_bind, Option.bind_some, hrest]
    rw [← hjoin]

/-- Equal rates: every whole sample is handed on as it is. -/
theorem convert_identity (filter : Filter K) {stream : Bytes} (hid : filter.identity = true)
    (chunks : List Bytes) :
    ∀ {framer : PcmFramer} {fed : Bytes}, stream = fed ++ chunks.flatten → Framed fed framer →
      convert { start filter with framer := framer } chunks
        = some ((stream.take (2 * (stream.length / 2))).drop (2 * (fed.length / 2)),
          start filter) := by
  induction chunks with
  | nil =>
    intro framer fed hstream hframed
    rw [List.flatten_nil, List.append_nil] at hstream
    have hnil : (stream.take (2 * (stream.length / 2))).drop (2 * (fed.length / 2)) = [] := by
      refine List.drop_of_length_le ?_
      rw [List.length_take, hstream]
      exact min_le_left _ _
    rw [convert, flush, hnil, hframed]
    simp only [start, hid, if_true, PcmFramer.flush]
  | cons pcm rest ih =>
    intro framer fed hstream hframed
    obtain ⟨hframed', hwhole⟩ := framed_feed hframed pcm
    rw [List.flatten_cons, ← List.append_assoc] at hstream
    have hrest := ih hstream hframed'
    have hjoin : ((fed ++ pcm).take (2 * ((fed ++ pcm).length / 2))).drop (2 * (fed.length / 2))
        ++ (stream.take (2 * (stream.length / 2))).drop (2 * ((fed ++ pcm).length / 2))
        = (stream.take (2 * (stream.length / 2))).drop (2 * (fed.length / 2)) := by
      have hpre : stream.take (2 * ((fed ++ pcm).length / 2))
          = (fed ++ pcm).take (2 * ((fed ++ pcm).length / 2)) := by
        rw [hstream]
        exact List.take_append_of_le_length (by omega)
      have hlen := congrArg List.length hstream
      rw [List.length_append] at hlen
      rw [← hpre]
      refine Segment.segment_append stream ?_ (by omega)
      rw [List.length_append]
      omega
    rw [convert, feed]
    simp only [start, hid, if_true, Option.bind_eq_bind, Option.bind_some] at hrest ⊢
    rw [hrest, hwhole]
    simp only [Option.bind_some]
    rw [hjoin]

/-! ### Equal rates -/

variable [IsStrictOrderedRing K]

omit [FloorRing K] in
theorem rawTaps_identity (kernel : Kernel K) {rates : Rates} (hup : rates.up = 1)
    (hdown : rates.down = 1) :
    rawTaps kernel rates = (List.range rates.taps).map fun i =>
      if i = rates.delay then 1 else 0 := by
  have hcutoff : (2 : K) * (min (1 / (rates.up : K)) (1 / (rates.down : K)) / 2) = 1 := by
    rw [hup, hdown]
    norm_num
  rw [rawTaps]
  refine List.map_congr_left fun i _ => ?_
  rw [hcutoff, one_mul, one_mul]
  split_ifs with hcentre
  · have hdelay : 0 < rates.delay := by
      rw [rates.delay_eq, hup, hdown]
      decide
    rw [hcentre, sub_self, kernel.sinc_zero, rates.taps_eq,
      kernel.blackman_centre _ hdelay, one_mul]
  · have hoff : (i : K) - rates.delay = (((i : ℤ) - rates.delay : ℤ) : K) := by push_cast; rfl
    rw [hoff, kernel.sinc_intCast _ (by omega), zero_mul]

omit [FloorRing K] in
/-- At equal rates the only tap is the middle one. -/
theorem tap_identity (kernel : Kernel K) {rates : Rates} (hup : rates.up = 1)
    (hdown : rates.down = 1)
    (j : ℤ) : (Filter.make kernel rates).tap j = if j = rates.delay then 1 else 0 := by
  have htaps := rates.taps_eq
  have hsum : (rawTaps kernel rates).sum = 1 := by
    have hlist := sum_map_range (fun m : ℤ =>
      if m = (rates.delay : ℤ) then (1 : K) else 0) 0 rates.taps
    rw [Finset.sum_ite_eq', if_pos (by rw [Finset.mem_Ico]; omega)] at hlist
    rw [rawTaps_identity kernel hup hdown]
    refine Eq.trans (congrArg List.sum ?_) hlist
    refine List.map_congr_left fun i _ => ?_
    simp only [zero_add, Nat.cast_inj]
  have htap : (Filter.make kernel rates).h
      = ((List.range rates.taps).map fun i => if i = rates.delay then (1 : K) else 0) ++ [0] := by
    show firTaps kernel rates = _
    rw [firTaps, hsum, hup, Nat.cast_one, div_one, rawTaps_identity kernel hup hdown]
    simp only [mul_one, List.map_id']
  rw [Filter.tap, htap]
  show (if 0 ≤ j ∧ j < rates.taps then _ else _) = _
  split_ifs with hin hcentre hcentre
  · rw [List.getD_eq_getElem?_getD,
      List.getElem?_append_left (by rw [List.length_map, List.length_range]; omega),
      List.getElem?_map, List.getElem?_range (by omega)]
    rw [Option.map_some, Option.getD_some, if_pos (by omega)]
  · rw [List.getD_eq_getElem?_getD,
      List.getElem?_append_left (by rw [List.length_map, List.length_range]; omega),
      List.getElem?_map, List.getElem?_range (by omega)]
    rw [Option.map_some, Option.getD_some, if_neg (by omega)]
  · omega
  · rfl

/-- A sample is its own quantisation. -/
theorem quantise_intCast {z : ℤ} (h : IsInt16 z) : quantise (z : K) = z := by
  obtain ⟨hlo, hhi⟩ := h
  rw [quantise, roundHalfEven_intCast, min_eq_left hhi, max_eq_right hlo]

/-- At equal rates the convolution is the signal. -/
theorem emitted_identity (kernel : Kernel K) {rates : Rates}
    (hup : rates.up = 1) (hdown : rates.down = 1) (stream : Bytes) :
    emitted (Filter.make kernel rates) (signal K stream) 0 ((stream.length / 2 : ℕ) : ℤ)
      = stream.take (2 * (stream.length / 2)) := by
  have hsignal : ∀ k : ℤ, (Filter.make kernel rates).convolved (signal K stream) k
      = signal K stream k := by
    intro k
    have hwithin : ∀ n, signal K stream n ≠ 0 →
        min 0 k ≤ n ∧ n < max ((stream.length / 2 : ℕ) : ℤ) (k + 1) := by
      intro n hn
      by_contra hout
      exact hn (signal_eq_zero (by omega))
    rw [Filter.convolved_eq_sum hwithin]
    · rw [Finset.sum_eq_single k]
      · show signal K stream k * (Filter.make kernel rates).tap
          (k * (rates.down : ℤ) + (rates.delay : ℤ) - k * (rates.up : ℤ)) = _
        rw [tap_identity kernel hup hdown, if_pos (by rw [hup, hdown]; ring), mul_one]
      · intro n _ hne
        show signal K stream n * (Filter.make kernel rates).tap
          (k * (rates.down : ℤ) + (rates.delay : ℤ) - n * (rates.up : ℤ)) = 0
        rw [tap_identity kernel hup hdown, if_neg (by rw [hup, hdown]; omega), mul_zero]
      · intro hout
        rw [Finset.mem_Ico] at hout
        omega
  have hdecode : decodeInt16 (stream.take (2 * (stream.length / 2))) = decodeInt16 stream := by
    rw [decodeInt16_take]
    exact List.take_of_length_le (by simp)
  rw [← @encodeInt16_decodeInt16 (stream.take (2 * (stream.length / 2))), hdecode, emitted]
  · congr 1
    refine List.ext_getElem? fun i => ?_
    rw [List.getElem?_map]
    rcases lt_or_ge i (stream.length / 2) with hlt | hge
    · have hlen : i < (decodeInt16 stream).length := by rwa [length_decodeInt16]
      rw [List.getElem?_range (by omega), Option.map_some, hsignal, signal, if_neg (by omega)]
      have hnat : (0 + (i : ℤ)).toNat = i := by omega
      rw [hnat, List.getElem?_eq_getElem hlen, Option.getD_some,
        quantise_intCast (isInt16_of_mem_decodeInt16 (List.getElem_mem hlen))]
    · rw [List.getElem?_eq_none (by rw [List.length_range]; omega),
        List.getElem?_eq_none (by rw [length_decodeInt16]; omega)]
      rfl
  · rw [List.length_take]
    omega

/-! ### Any rates -/

/-- The rates of a conversion are in lowest terms. -/
theorem reduce_spec {src dst : ℕ} (hsrc : 0 < src) (hdst : 0 < dst) :
    Nat.Coprime (Rates.reduce src dst hsrc hdst).up (Rates.reduce src dst hsrc hdst).down ∧
      (Rates.reduce src dst hsrc hdst).up * src = (Rates.reduce src dst hsrc hdst).down * dst := by
  constructor
  · exact (Nat.coprime_div_gcd_div_gcd (Nat.gcd_pos_of_pos_left dst hsrc)).symm
  · show dst / Nat.gcd src dst * src = src / Nat.gcd src dst * dst
    rw [Nat.div_mul_right_comm (Nat.gcd_dvd_right src dst),
      Nat.div_mul_right_comm (Nat.gcd_dvd_left src dst), mul_comm]

/-- The whole utterance at once: all outputs the input is due, whatever the chunks. -/
theorem convert_start (kernel : Kernel K) {rates : Rates}
    (hcoprime : Nat.Coprime rates.up rates.down)
    (chunks : List Bytes) :
    convert (start (Filter.make kernel rates)) chunks
      = some (emitted (Filter.make kernel rates) (signal K chunks.flatten) 0
          (ceilDiv ((chunks.flatten.length / 2 : ℕ) * rates.up) rates.down),
        start (Filter.make kernel rates)) := by
  cases hid : rates.identity with
  | true =>
    have heq : rates.up = rates.down := of_decide_eq_true hid
    have hdown : rates.down = 1 := by
      rw [heq] at hcoprime
      exact (Nat.coprime_self _).mp hcoprime
    have hwhole := convert_identity (Filter.make kernel rates) hid chunks rfl
      (show Framed [] { frameBytes := 2 } from rfl)
    refine hwhole.trans ?_
    have hcount : ceilDiv ((chunks.flatten.length / 2 : ℕ) * rates.up) rates.down
        = ((chunks.flatten.length / 2 : ℕ) : ℤ) := by
      rw [heq, hdown]
      refine ceilDiv_eq Int.one_pos ?_ ?_ <;> push_cast <;> omega
    rw [hcount, emitted_identity kernel (heq.trans hdown) hdown]
    rfl
  | false =>
    have hdue : (0 : ℤ) ≤ ceilDiv (((0 : ℕ) : ℤ) * rates.up) rates.down := by
      rw [Nat.cast_zero, zero_mul, ceilDiv, neg_zero, Int.zero_ediv, neg_zero]
    exact (convert_spec chunks (r := start (Filter.make kernel rates)) hid rfl
      (show Framed [] { frameBytes := 2 } from rfl)
      ⟨fun n hn => signal_eq_zero (Or.inl hn), rfl, le_rfl, fun i hi =>
        absurd hi (Nat.not_lt_zero i),
        Or.inl rfl, le_rfl, hdue⟩).2

/-- **The streaming resampler equals one-shot resampling.** For every pair of rates, in lowest terms
`up / down`, and every utterance, however it is split over feeds: the conversion reads no history or
tap out of range, emits exactly `⌈n * up / down⌉` samples, the `k`-th of which is the rounded and
clamped convolution sum, and leaves the converter as it was at the start. -/
theorem convert_stream (kernel : Kernel K) {srcHz dstHz : ℤ} {r : Resampler K}
    (hnew : new kernel srcHz dstHz = .ok r) (chunks : List Bytes) :
    let samples := decodeInt16 chunks.flatten
    let count := ceilDiv (samples.length * r.up) r.down
    let out := encodeInt16 ((List.range count.toNat).map fun k : ℕ =>
      quantise (∑ n ∈ Finset.range samples.length,
        ((samples[n]?.getD 0 : ℤ) : K) * r.tap (k * r.down + r.delay - n * r.up)))
    Nat.Coprime r.up r.down ∧ r.up * srcHz = r.down * dstHz ∧
      r.convert chunks = some (out, r) ∧ r.convert [chunks.flatten] = some (out, r) := by
  rw [new] at hnew
  split_ifs at hnew with hpos
  obtain rfl := Except.ok.inj hnew
  have hsrc : 0 < srcHz.toNat := by omega
  have hdst : 0 < dstHz.toNat := by omega
  obtain ⟨hcoprime, hratio⟩ := reduce_spec hsrc hdst
  set rates := Rates.reduce srcHz.toNat dstHz.toNat hsrc hdst with hrates
  have hsum : ∀ k : ℤ, (Filter.make kernel rates).convolved (signal K chunks.flatten) k
      = ∑ n ∈ Finset.range (decodeInt16 chunks.flatten).length,
        (((decodeInt16 chunks.flatten)[n]?.getD 0 : ℤ) : K)
          * (Filter.make kernel rates).tap (k * rates.down + rates.delay - n * rates.up) := by
    intro k
    have hwithin : ∀ n, signal K chunks.flatten n ≠ 0 →
        0 ≤ n ∧ n < ((decodeInt16 chunks.flatten).length : ℤ) := by
      intro n hn
      by_contra hout
      refine hn (signal_eq_zero ?_)
      rw [length_decodeInt16] at hout
      omega
    rw [Filter.convolved_eq_sum hwithin, ← sum_range_eq_sum_Ico]
    refine Finset.sum_congr rfl fun n _ => ?_
    rw [signal, if_neg (by omega), Int.toNat_natCast]
    rfl
  have hout : ∀ cs : List Bytes, cs.flatten = chunks.flatten →
      convert (start (Filter.make kernel rates)) cs = some (encodeInt16 ((List.range
        (ceilDiv ((decodeInt16 chunks.flatten).length * rates.up) rates.down).toNat).map
          fun k : ℕ =>
          quantise (∑ n ∈ Finset.range (decodeInt16 chunks.flatten).length,
            (((decodeInt16 chunks.flatten)[n]?.getD 0 : ℤ) : K)
              * (Filter.make kernel rates).tap (k * rates.down + rates.delay - n * rates.up))),
        start (Filter.make kernel rates)) := by
    intro cs hcs
    rw [convert_start kernel hcoprime cs, hcs, emitted, length_decodeInt16, Int.sub_zero]
    simp only [zero_add, hsum, length_decodeInt16]
  refine ⟨hcoprime, ?_, hout chunks rfl, hout [chunks.flatten] (by simp)⟩
  have hcast : ((rates.up * srcHz.toNat : ℕ) : ℤ) = ((rates.down * dstHz.toNat : ℕ) : ℤ) :=
    congrArg Nat.cast hratio
  rw [Nat.cast_mul, Nat.cast_mul, Int.toNat_of_nonneg hpos.1.le, Int.toNat_of_nonneg hpos.2.le]
    at hcast
  exact hcast

end

/-- 24 kHz to 16 kHz, from three samples split inside the second one. -/
theorem convert_stream_24k :
    let r : Resampler ℝ := start (.make .real (.reduce 24000 16000 (by decide) (by decide)))
    let chunks : List Bytes := [[16, 0, 32], [1, 48, 2]]
    let samples := decodeInt16 chunks.flatten
    let count := ceilDiv (samples.length * r.up) r.down
    let out := encodeInt16 ((List.range count.toNat).map fun k : ℕ =>
      quantise (∑ n ∈ Finset.range samples.length,
        ((samples[n]?.getD 0 : ℤ) : ℝ) * r.tap (k * r.down + r.delay - n * r.up)))
    Nat.Coprime r.up r.down ∧ r.up * (24000 : ℤ) = r.down * 16000 ∧
      r.convert chunks = some (out, r) ∧ r.convert [chunks.flatten] = some (out, r) :=
  convert_stream .real rfl [[16, 0, 32], [1, 48, 2]]

end Resampler

end Myna
