import Mathlib.Algebra.Group.Nat.Even
import Mathlib.Data.List.Basic

/-!
# Myna — PCM bytes, samples and the framer (`myna.core.audio`)

Audio reaches the server as a byte stream of 16-bit little-endian samples. This module holds the
byte and sample views of such a stream and the two directions between them.

* **`decodeInt16`** / **`encodeInt16`** — NumPy's `"<i2"` view of a byte string and back;
* **`decodeInt16_append`**, **`decodeInt16_drop`**, **`decodeInt16_take`** — on whole samples the
  view commutes with concatenation and slicing, a byte offset being twice the sample offset;
* **`PcmFramer`** — cuts a byte stream into whole frames, carrying a split frame over.
-/

namespace Myna

abbrev Bytes := List UInt8

/-- `_SAMPLE_BYTES`: the bytes of one S16LE sample. -/
def sampleBytes : ℕ := 2

/-! ## Samples -/

/-- The signed value of a little-endian pair of bytes. -/
def int16 (lo hi : UInt8) : ℤ :=
  let n : ℤ := lo.toNat + 256 * hi.toNat
  if n < 32768 then n else n - 65536

/-- `np.frombuffer(_, dtype="<i2")`: the samples of a whole number of byte pairs. -/
def decodeInt16 : Bytes → List ℤ
  | lo :: hi :: rest => int16 lo hi :: decodeInt16 rest
  | _ => []

/-- The two bytes of a sample, low byte first. -/
def int16Bytes (z : ℤ) : Bytes :=
  [UInt8.ofNat (z % 256).toNat, UInt8.ofNat (z / 256 % 256).toNat]

/-- `_.astype("<i2").tobytes()`. -/
def encodeInt16 (samples : List ℤ) : Bytes :=
  samples.flatMap int16Bytes

/-- A value a 16-bit sample can hold. -/
def IsInt16 (z : ℤ) : Prop := -32768 ≤ z ∧ z ≤ 32767

theorem int16_isInt16 (lo hi : UInt8) : IsInt16 (int16 lo hi) := by
  have hlo := lo.toNat_lt
  have hhi := hi.toNat_lt
  unfold IsInt16 int16
  dsimp only
  split_ifs <;> omega

@[simp] theorem length_decodeInt16 (xs : Bytes) : (decodeInt16 xs).length = xs.length / 2 := by
  induction xs using decodeInt16.induct with
  | case1 lo hi rest ih =>
    simp only [decodeInt16, List.length_cons, ih]
    omega
  | case2 xs h =>
    match xs, h with
    | [], _ => rfl
    | [a], _ => simp [decodeInt16]
    | a :: b :: rest, h => exact absurd rfl (h a b rest)

/-- Decoding distributes over a concatenation whose first part is whole samples. -/
theorem decodeInt16_append {xs : Bytes} (h : xs.length % 2 = 0) (ys : Bytes) :
    decodeInt16 (xs ++ ys) = decodeInt16 xs ++ decodeInt16 ys := by
  induction xs using decodeInt16.induct with
  | case1 lo hi rest ih =>
    simp only [List.length_cons] at h
    simp [decodeInt16, ih (by omega)]
  | case2 xs hx =>
    match xs, hx with
    | [], _ => rfl
    | [a], _ => simp at h
    | a :: b :: rest, hx => exact absurd rfl (hx a b rest)

/-- Dropping `n` samples is dropping `2 * n` bytes. -/
theorem decodeInt16_drop (n : ℕ) (xs : Bytes) :
    decodeInt16 (xs.drop (2 * n)) = (decodeInt16 xs).drop n := by
  induction n generalizing xs with
  | zero => rfl
  | succ n ih =>
    match xs with
    | [] => simp [decodeInt16]
    | [a] => simp [decodeInt16, show 2 * (n + 1) = (2 * n + 1) + 1 by omega]
    | a :: b :: rest =>
      rw [show 2 * (n + 1) = (2 * n) + 1 + 1 by omega]
      simpa [decodeInt16] using ih rest

/-- Keeping `n` samples is keeping `2 * n` bytes. -/
theorem decodeInt16_take (n : ℕ) (xs : Bytes) :
    decodeInt16 (xs.take (2 * n)) = (decodeInt16 xs).take n := by
  induction n generalizing xs with
  | zero => simp [decodeInt16]
  | succ n ih =>
    match xs with
    | [] => simp [decodeInt16]
    | [a] => simp [decodeInt16, show 2 * (n + 1) = (2 * n + 1) + 1 by omega]
    | a :: b :: rest =>
      rw [show 2 * (n + 1) = (2 * n) + 1 + 1 by omega]
      simpa [decodeInt16] using ih rest

/-- The samples of a byte string start with the samples of its prefix. -/
theorem decodeInt16_append_take (xs ys : Bytes) :
    (decodeInt16 (xs ++ ys)).take (xs.length / 2) = decodeInt16 xs := by
  rw [← decodeInt16_take, List.take_append_of_le_length (by omega), decodeInt16_take]
  exact List.take_of_length_le (by simp)

/-- A sample is written back as the bytes it was read from. -/
theorem int16Bytes_int16 (lo hi : UInt8) : int16Bytes (int16 lo hi) = [lo, hi] := by
  have hlo := lo.toNat_lt
  have hhi := hi.toNat_lt
  have hlow : (int16 lo hi % 256).toNat = lo.toNat := by
    unfold int16
    dsimp only
    split_ifs <;> omega
  have hhigh : (int16 lo hi / 256 % 256).toNat = hi.toNat := by
    unfold int16
    dsimp only
    split_ifs <;> omega
  rw [int16Bytes, hlow, hhigh, UInt8.ofNat_toNat, UInt8.ofNat_toNat]

/-- Whole samples are written back as the bytes they were read from. -/
theorem encodeInt16_decodeInt16 {xs : Bytes} (h : xs.length % 2 = 0) :
    encodeInt16 (decodeInt16 xs) = xs := by
  induction xs using decodeInt16.induct with
  | case1 lo hi rest ih =>
    simp only [List.length_cons] at h
    rw [decodeInt16, encodeInt16, List.flatMap_cons, int16Bytes_int16, ← encodeInt16, ih (by omega)]
    rfl
  | case2 xs hx =>
    match xs, hx with
    | [], _ => rfl
    | [a], _ => simp at h
    | a :: b :: rest, hx => exact absurd rfl (hx a b rest)

@[simp] theorem length_encodeInt16 (samples : List ℤ) :
    (encodeInt16 samples).length = 2 * samples.length := by
  induction samples with
  | nil => rfl
  | cons z rest ih =>
    rw [encodeInt16, List.flatMap_cons, ← encodeInt16, List.length_append, ih, int16Bytes]
    simp only [List.length_cons, List.length_nil]
    omega

/-- Decoded samples fit 16 bits. -/
theorem isInt16_of_mem_decodeInt16 {xs : Bytes} {z : ℤ} (h : z ∈ decodeInt16 xs) : IsInt16 z := by
  induction xs using decodeInt16.induct with
  | case1 lo hi rest ih =>
    rw [decodeInt16, List.mem_cons] at h
    rcases h with heq | hmem
    · rw [heq]
      exact int16_isInt16 lo hi
    · exact ih hmem
  | case2 xs hx =>
    match xs, hx with
    | [], _ => cases h
    | [a], _ => cases h
    | a :: b :: rest, hx => exact absurd rfl (hx a b rest)

/-! ## The framer -/

/-- `PcmFramer`: the frame size and the bytes of a frame still incomplete. -/
structure PcmFramer where
  frameBytes : ℕ
  pending : Bytes := []

/-- `PcmFramer.feed`: the whole frames of what has arrived; the rest is carried over. -/
def PcmFramer.feed (framer : PcmFramer) (data : Bytes) : Bytes × PcmFramer :=
  let data := framer.pending ++ data
  let whole := data.length - data.length % framer.frameBytes
  (data.take whole, { framer with pending := data.drop whole })

/-- `PcmFramer.flush`: a partial frame at the utterance boundary is discarded. -/
def PcmFramer.flush (framer : PcmFramer) : PcmFramer :=
  { framer with pending := [] }

/-- What the framer hands on and what it carries make up what it was given. -/
theorem PcmFramer.feed_append (framer : PcmFramer) (data : Bytes) :
    (framer.feed data).1 ++ (framer.feed data).2.pending = framer.pending ++ data := by
  simp [feed]

theorem PcmFramer.length_feed_mod (framer : PcmFramer) (data : Bytes) :
    (framer.feed data).1.length % framer.frameBytes = 0 := by
  set n := (framer.pending ++ data).length with hn
  have hle : n % framer.frameBytes ≤ n := Nat.mod_le _ _
  have hlen : (framer.feed data).1.length = n - n % framer.frameBytes := by
    simp only [feed, List.length_take, ← hn]
    omega
  rw [hlen]
  exact Nat.sub_mod_eq_zero_of_mod_eq (by simp)

theorem PcmFramer.length_feed_pending_lt (framer : PcmFramer) (h : 0 < framer.frameBytes)
    (data : Bytes) : (framer.feed data).2.pending.length < framer.frameBytes := by
  set n := (framer.pending ++ data).length with hn
  have hlt : n % framer.frameBytes < framer.frameBytes := Nat.mod_lt _ h
  have hle : n % framer.frameBytes ≤ n := Nat.mod_le _ _
  simp only [feed, List.length_drop, ← hn]
  omega

end Myna
