import Myna.Core.Audio
import Myna.Lib.Rounding
import Mathlib.Data.Rat.Floor

/-!
# Myna — the bounded rolling window (`streaming/window.py`)

Positions are sample counts since session start. `received` is the end of all audio appended so
far, `processedThrough` the end of the audio that has had its final processing, `retainedStart`
the first sample still buffered.

* **`WindowPair`** — a cap and an overlap the constructor accepts, so that a rejected pair cannot
  be built;
* **`RollingWindow`** and its operations `fill`, `samples`, `retire`, at byte scale as the code has
  them;
* **`RollingWindow.Tracks`** — what the window is for: its buffer is exactly the received bytes
  from `retainedStart` on, the three positions are ordered and the cap is respected. `fill` and
  `retire` keep it, and `samples` then reads the stream itself (`Tracks.samples_eq`).
-/

namespace Myna

/-- Audio time in seconds, the code's `float`, in exact arithmetic. -/
abbrev Seconds := ℚ

/-- All adapters serve 16 kHz mono. -/
def RATE : ℕ := 16000

/-- `to_samples`: Python's `round` of a duration, to the nearest sample and ties to even. -/
def toSamples (seconds : Seconds) : ℤ :=
  roundHalfEven (seconds * RATE)

/-- The audio time of a sample position. -/
def secondsAt (position : ℕ) : Seconds :=
  position / RATE

/-- A sample position survives the trip through seconds. -/
@[simp] theorem toSamples_secondsAt (n : ℕ) : toSamples (secondsAt n) = n := by
  have hmul : secondsAt n * RATE = ((n : ℤ) : ℚ) := by
    simp [secondsAt, RATE]
  rw [toSamples, hmul, roundHalfEven_intCast]

theorem toSamples_mono : Monotone toSamples := by
  intro a b hab
  refine roundHalfEven_mono ?_
  exact mul_le_mul_of_nonneg_right hab (by simp [RATE])

theorem toSamples_nonneg {s : Seconds} (h : 0 ≤ s) : 0 ≤ toSamples s := by
  have hzero : toSamples (secondsAt 0) ≤ toSamples s :=
    toSamples_mono (by simpa [secondsAt] using h)
  simpa using hzero

theorem secondsAt_le_iff {m n : ℕ} : secondsAt m ≤ secondsAt n ↔ m ≤ n := by
  have h : (0 : ℚ) < (RATE : ℚ) := by norm_num [RATE]
  rw [secondsAt, secondsAt, div_le_div_iff_of_pos_right h]
  exact_mod_cast Iff.rfl

theorem secondsAt_sub {m n : ℕ} (h : m ≤ n) : secondsAt (n - m) = secondsAt n - secondsAt m := by
  rw [secondsAt, secondsAt, secondsAt, Nat.cast_sub h, sub_div]

@[simp] theorem secondsAt_zero : secondsAt 0 = 0 := by simp [secondsAt]

theorem sub_secondsAt_le (n m : ℕ) : secondsAt n - secondsAt m ≤ secondsAt (n - m) := by
  rcases le_total m n with h | h
  · rw [secondsAt_sub h]
  · have hle := sub_nonpos.mpr (secondsAt_le_iff.mpr h)
    rw [Nat.sub_eq_zero_of_le h, secondsAt_zero]
    exact hle

/-! ## The constructor's guard -/

/-- A window cap and an overlap, in seconds, that `RollingWindow.__init__` accepts. -/
structure WindowPair where
  cap : Seconds
  overlap : Seconds
  five_le_cap : 5 ≤ cap
  overlap_nonneg : 0 ≤ overlap
  overlap_lt_cap : overlap < cap

theorem five_le_defaultCap : (5 : Seconds) ≤ 65 := by norm_num

theorem defaultOverlap_nonneg : (0 : Seconds) ≤ 1 := by norm_num

theorem defaultOverlap_lt_cap : (1 : Seconds) < 65 := by norm_num

/-- The guard of `RollingWindow.__init__`, with the messages of its two `ValueError`s. -/
def WindowPair.check (cap overlap : Seconds) : Except String WindowPair :=
  if h5 : 5 ≤ cap then
    if h : 0 ≤ overlap ∧ overlap < cap then .ok ⟨cap, overlap, h5, h.1, h.2⟩
    else .error "overlap_seconds must be in [0, window_cap_seconds)"
  else .error "window_cap_seconds must be >= 5"

/-- The cap in samples. -/
def WindowPair.capSamples (pair : WindowPair) : ℕ := (toSamples pair.cap).toNat

/-- The overlap in samples. -/
def WindowPair.overlapSamples (pair : WindowPair) : ℕ := (toSamples pair.overlap).toNat

/-- Rounding keeps the order of the two durations but not its strictness. -/
theorem WindowPair.overlapSamples_le_capSamples (pair : WindowPair) :
    pair.overlapSamples ≤ pair.capSamples :=
  Int.toNat_le_toNat (toSamples_mono pair.overlap_lt_cap.le)

/-! ## The window -/

structure RollingWindow where
  cap : ℕ
  overlap : ℕ
  buf : Bytes
  received : ℕ
  retainedStart : ℕ
  processedThrough : ℕ

namespace RollingWindow

/-- The empty window `RollingWindow(cap, overlap)` starts as. -/
def new (pair : WindowPair) : RollingWindow where
  cap := pair.capSamples
  overlap := pair.overlapSamples
  buf := []
  received := 0
  retainedStart := 0
  processedThrough := 0

def retained (w : RollingWindow) : ℕ := w.received - w.retainedStart

/-- Audio time of the first buffered sample. -/
def start (w : RollingWindow) : Seconds := secondsAt w.retainedStart

/-- Audio time just past the newest buffered sample. -/
def ends (w : RollingWindow) : Seconds := secondsAt w.received

def windowSeconds (w : RollingWindow) : Seconds := secondsAt w.retained

/-- Append as much of `pcm` as fits under the cap; returns the bytes taken. -/
def fill (w : RollingWindow) (pcm : Bytes) : Except String (ℕ × RollingWindow) :=
  if pcm.length % sampleBytes ≠ 0 then .error "PCM must hold whole 16-bit samples"
  else
    let n := min (pcm.length / sampleBytes) (w.cap - w.retained)
    .ok (n * sampleBytes,
      { w with buf := w.buf ++ pcm.take (n * sampleBytes), received := w.received + n })

/-- The `float32` value of each 16-bit sample. -/
def toFloat (pcm : Bytes) : List ℚ :=
  (decodeInt16 pcm).map (fun z : ℤ => (z : ℚ) / 32768)

/-- Retained samples in `[first, end)`; the bounds default to the whole window and are clamped to
it. -/
def samples (w : RollingWindow) (first : Option ℤ := none) (stop : Option ℤ := none) : List ℚ :=
  let lo : ℕ := match first with
    | none => 0
    | some f => (f - w.retainedStart).toNat
  let hi : ℤ := match stop with
    | none => w.retained
    | some e => min (e - w.retainedStart) w.retained
  toFloat ((w.buf.take ((max lo hi.toNat) * sampleBytes)).drop (lo * sampleBytes))

/-- Mark audio before `through` processed and drop it, keeping the overlap unless told not to. -/
def retire (w : RollingWindow) (through : ℤ) (keepOverlap : Bool := true) : RollingWindow :=
  let processedThrough := max w.processedThrough (min through w.received).toNat
  let overlap := if keepOverlap then w.overlap else 0
  let keepFrom := max w.retainedStart (processedThrough - overlap)
  { w with
    processedThrough := processedThrough
    buf := w.buf.drop ((keepFrom - w.retainedStart) * sampleBytes)
    retainedStart := keepFrom }

/-! ## What `fill` and `retire` do to the positions -/

@[simp] theorem retire_cap (w : RollingWindow) (t : ℤ) (k : Bool) :
  (w.retire t k).cap = w.cap := rfl

@[simp] theorem retire_overlap (w : RollingWindow) (t : ℤ) (k : Bool) :
    (w.retire t k).overlap = w.overlap := rfl

@[simp] theorem retire_received (w : RollingWindow) (t : ℤ) (k : Bool) :
    (w.retire t k).received = w.received := rfl

theorem retire_processedThrough (w : RollingWindow) (t : ℤ) (k : Bool) :
    (w.retire t k).processedThrough = max w.processedThrough (min t w.received).toNat := rfl

theorem retire_retainedStart (w : RollingWindow) (t : ℤ) (k : Bool) :
    (w.retire t k).retainedStart =
      max w.retainedStart ((w.retire t k).processedThrough - if k then w.overlap else 0) := rfl

/-- Retiring a position the window has received, past what it had processed, lands exactly
there. -/
theorem retire_processedThrough_eq {w : RollingWindow} {cut : ℕ} (h : w.processedThrough ≤ cut)
    (hr : cut ≤ w.received) (k : Bool) : (w.retire cut k).processedThrough = cut := by
  rw [retire_processedThrough]
  omega

theorem le_retire_processedThrough (w : RollingWindow) (t : ℤ) (k : Bool) :
    w.processedThrough ≤ (w.retire t k).processedThrough := le_max_left _ _

theorem le_retire_retainedStart (w : RollingWindow) (t : ℤ) (k : Bool) :
    w.retainedStart ≤ (w.retire t k).retainedStart := le_max_left _ _

/-- The samples of `pcm` that fit under the cap. -/
def room (w : RollingWindow) (pcm : Bytes) : ℕ := min (pcm.length / 2) (w.cap - w.retained)

/-- The window after a `fill` that does not raise. -/
def filled (w : RollingWindow) (pcm : Bytes) : RollingWindow :=
  { w with buf := w.buf ++ pcm.take (w.room pcm * 2), received := w.received + w.room pcm }

/-- `fill` raises on half a sample and takes what fits otherwise. -/
theorem fill_eq (w : RollingWindow) (pcm : Bytes) :
    (pcm.length % 2 = 1 ∧ ∃ e, w.fill pcm = .error e) ∨
      (pcm.length % 2 = 0 ∧ w.fill pcm = .ok (w.room pcm * 2, w.filled pcm)) := by
  rcases Nat.mod_two_eq_zero_or_one pcm.length with h | h
  · exact Or.inr ⟨h, by simp [fill, sampleBytes, h, room, filled]⟩
  · exact Or.inl ⟨h, "PCM must hold whole 16-bit samples", by simp [fill, sampleBytes, h]⟩

theorem room_le_half (w : RollingWindow) (pcm : Bytes) : w.room pcm ≤ pcm.length / 2 :=
  min_le_left _ _

theorem room_le_free (w : RollingWindow) (pcm : Bytes) : w.room pcm ≤ w.cap - w.retained :=
  min_le_right _ _

/-! ## The window as a view of the received stream -/

/-- The window tracks the byte stream `stream`: what it has received is a prefix of it, it buffers
exactly that prefix from `retainedStart` on, and it holds no more than its cap. -/
structure Tracks (w : RollingWindow) (stream : Bytes) : Prop where
  retainedStart_le : w.retainedStart ≤ w.processedThrough
  processedThrough_le : w.processedThrough ≤ w.received
  received_le : 2 * w.received ≤ stream.length
  buf_eq : w.buf = (stream.take (2 * w.received)).drop (2 * w.retainedStart)
  retained_le : w.retained ≤ w.cap

theorem new_tracks (pair : WindowPair) (stream : Bytes) : (new pair).Tracks stream where
  retainedStart_le := le_rfl
  processedThrough_le := le_rfl
  received_le := by simp [new]
  buf_eq := by simp [new]
  retained_le := by simp [new, retained]

namespace Tracks

variable {w : RollingWindow} {stream : Bytes}

theorem retainedStart_le_received (h : w.Tracks stream) : w.retainedStart ≤ w.received :=
  h.retainedStart_le.trans h.processedThrough_le

/-- The bytes of the stream before a window that has been filled: those before and those taken. -/
theorem take_filled (h : w.Tracks stream) {pcm rest : Bytes}
    (hs : stream = stream.take (2 * w.received) ++ (pcm ++ rest)) :
    stream.take (2 * (w.filled pcm).received)
      = stream.take (2 * w.received) ++ pcm.take (w.room pcm * 2) := by
  have hlen : (stream.take (2 * w.received)).length = 2 * w.received := by
    simp [h.received_le]
  have hhalf := w.room_le_half pcm
  show stream.take (2 * (w.received + w.room pcm)) = _
  conv_lhs => rw [hs]
  rw [List.take_append, hlen, List.take_of_length_le (by rw [hlen]; omega),
    List.take_append_of_le_length (by omega),
    show 2 * (w.received + w.room pcm) - 2 * w.received = w.room pcm * 2 by omega]

/-- `fill` keeps the window on the stream: the bytes it takes are the next ones. -/
theorem filled (h : w.Tracks stream) {pcm rest : Bytes}
    (hs : stream = stream.take (2 * w.received) ++ (pcm ++ rest)) :
    (w.filled pcm).Tracks stream := by
  have hrs := h.retainedStart_le_received
  have hret := h.retained_le
  have hlen : (stream.take (2 * w.received)).length = 2 * w.received := by
    simp [h.received_le]
  have htotal : stream.length = 2 * w.received + (pcm.length + rest.length) := by
    have := congrArg List.length hs
    simpa [hlen] using this
  have hhalf := w.room_le_half pcm
  have hfree := w.room_le_free pcm
  unfold retained at hfree hret
  constructor
  · exact h.retainedStart_le
  · exact h.processedThrough_le.trans (Nat.le_add_right _ _)
  · show 2 * (w.received + w.room pcm) ≤ stream.length
    omega
  · -- the next samples of the stream are the first ones of `pcm`
    have hdrop : 2 * w.retainedStart ≤ (stream.take (2 * w.received)).length := by omega
    rw [h.take_filled hs, show (w.filled pcm).retainedStart = w.retainedStart from rfl,
      List.drop_append_of_le_length hdrop, ← h.buf_eq]
    rfl
  · show w.received + w.room pcm - w.retainedStart ≤ w.cap
    omega

/-- `retire` keeps the window on the stream: it only drops from the front. -/
theorem retire (h : w.Tracks stream) (through : ℤ) (keep : Bool) :
    (w.retire through keep).Tracks stream := by
  have hrs := h.retainedStart_le
  have hpt := h.processedThrough_le
  have hret := h.retained_le
  have hpt' := retire_processedThrough w through keep
  have hrs' := retire_retainedStart w through keep
  have hov : 0 ≤ (if keep then w.overlap else 0) := Nat.zero_le _
  have hle : (w.retire through keep).processedThrough ≤ w.received := by omega
  have hle' : (w.retire through keep).retainedStart ≤ (w.retire through keep).processedThrough := by
    omega
  constructor
  · exact hle'
  · exact hle
  · exact h.received_le
  · show w.buf.drop _ = _
    rw [h.buf_eq, List.drop_drop]
    congr 1
    have hmono := le_retire_retainedStart w through keep
    show 2 * w.retainedStart + ((w.retire through keep).retainedStart - w.retainedStart) * 2
      = 2 * (w.retire through keep).retainedStart
    omega
  · show w.received - (w.retire through keep).retainedStart ≤ w.cap
    have hmono := le_retire_retainedStart w through keep
    unfold retained at hret
    omega

/-- **A region of the window is a region of the stream.** What `samples` returns for `[first, end)`
inside the window are the stream's samples at those absolute positions. -/
theorem samples_eq (h : w.Tracks stream) {first stop : ℕ} (hf : w.retainedStart ≤ first)
    (hs : stop ≤ w.received) :
    w.samples (some first) (some stop) = ((toFloat stream).take stop).drop first := by
  have hrs := h.retainedStart_le_received
  have hlo : ((first : ℤ) - w.retainedStart).toNat = first - w.retainedStart := by omega
  have hhi : (min ((stop : ℤ) - w.retainedStart) w.retained).toNat = stop - w.retainedStart := by
    unfold retained
    omega
  unfold samples
  simp only [hlo, hhi, toFloat, sampleBytes]
  rw [← List.map_take, ← List.map_drop, ← decodeInt16_take, ← decodeInt16_drop, h.buf_eq]
  congr 2
  rw [List.take_drop, List.take_take, List.drop_drop]
  have hd : 2 * w.retainedStart + (first - w.retainedStart) * 2 = 2 * first := by omega
  rw [hd]
  rcases le_total first stop with hfs | hfs
  · congr 2
    omega
  · rw [List.drop_of_length_le, List.drop_of_length_le] <;> simp <;> omega

/-- Retiring everything received leaves at most the overlap. -/
theorem retained_retire_received_le (h : w.Tracks stream) :
    (w.retire w.received).retained ≤ w.overlap := by
  have hpt := retire_processedThrough_eq h.processedThrough_le le_rfl true
  have hrs := retire_retainedStart w w.received true
  rw [hpt] at hrs
  simp only [if_true] at hrs
  unfold retained
  rw [retire_received]
  omega

/-- What a region read from a window holds: as many samples as it spans. -/
theorem length_samples (h : w.Tracks stream) {first stop : ℕ} (hf : w.retainedStart ≤ first)
    (hs : stop ≤ w.received) : (w.samples (some first) (some stop)).length = stop - first := by
  have hle := h.received_le
  rw [h.samples_eq hf hs]
  simp only [toFloat, List.length_drop, List.length_take, List.length_map, length_decodeInt16]
  omega

end Tracks

/-- The whole window is the region from `retainedStart` to `received`. -/
theorem samples_whole (w : RollingWindow) :
    w.samples none none = w.samples (some w.retainedStart) (some w.received) := by
  have h : (min ((w.received : ℤ) - w.retainedStart) w.retained).toNat = w.retained := by
    unfold retained
    omega
  simp [samples, h]

theorem samples_first (w : RollingWindow) (first : ℤ) :
    w.samples (some first) none = w.samples (some first) (some w.received) := by
  have h : (min ((w.received : ℤ) - w.retainedStart) w.retained).toNat = w.retained := by
    unfold retained
    omega
  simp only [samples, h, Int.toNat_natCast]

theorem samples_stop (w : RollingWindow) (stop : ℤ) :
    w.samples none (some stop) = w.samples (some w.retainedStart) (some stop) := by
  simp [samples]

end RollingWindow

end Myna
