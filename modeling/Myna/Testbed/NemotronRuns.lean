import Myna.Testbed.Nemotron

/-!
# Myna — what Nemotron streaming returns

What a stream has come to depends on the audio it was fed, not on the chunks it came in. The text
is taken chunk by chunk, so it depends on them where a language tag lies across two steps.

* **`Centred`** — a mel function whose frames are those of windows;
* **`Mel.push`** — the frames kept are those of one pass over the whole signal;
* **`At.feed`** — one `feed`: the steps it takes, and their tokens;
* **`streaming_chunks`** — the result.
-/

namespace Myna

namespace Nemotron

/-! ## Windows -/

/-- The sample at a position, where there is one. -/
def sampleAt {Sample : Type} (x : List Sample) (z : ℤ) : Option Sample :=
  if 0 ≤ z then x[z.toNat]? else none

/-- A centred mel: a frame every `hop` samples, each one of the samples of its window and the one
before it. -/
structure Centred {Sample Frame : Type} (mel : List Sample → List Frame) (hop nFft : ℕ) : Prop where
  length : ∀ x, (mel x).length = x.length / hop + 1
  window : ∀ (x y : List Sample) (j k : ℕ), j ≤ x.length / hop → k ≤ y.length / hop →
    (∀ i : ℤ, -(nFft / 2 : ℕ) - 1 ≤ i → i < nFft - (nFft / 2 : ℕ) →
      sampleAt x (j * hop + i) = sampleAt y (k * hop + i)) → (mel x)[j]? = (mel y)[k]?

namespace Shape

variable (shape : Shape)

/-- How many frames have their window in so much audio. -/
def ready (total : ℕ) : ℕ :=
  if total < shape.half then 0 else (total - shape.half) / shape.hop + 1

/-- How many chunks they complete. -/
def steps (total : ℕ) : ℕ := shape.ready total / shape.chunk

/-- Without audio no window is full. -/
theorem ready_zero (heven : Even shape.nFft) : shape.ready 0 = 0 := by
  have hpos := shape.nFft_pos
  obtain ⟨n, hn⟩ := heven
  refine if_pos ?_
  unfold half
  omega

theorem lt_ready {total k : ℕ} (h : k < shape.ready total) :
    k * shape.hop + shape.half ≤ total := by
  unfold ready at h
  split at h
  · omega
  · have hk : k ≤ (total - shape.half) / shape.hop := by omega
    have := (Nat.le_div_iff_mul_le shape.hop_pos).mp hk
    omega

theorem ready_mono {a b : ℕ} (h : a ≤ b) : shape.ready a ≤ shape.ready b := by
  unfold ready
  split
  · exact Nat.zero_le _
  · rw [if_neg (by omega)]
    have := Nat.div_le_div_right (c := shape.hop) (Nat.sub_le_sub_right h shape.half)
    omega

theorem half_le_context : shape.half + shape.hop ≤ shape.context * shape.hop := by
  unfold context
  have hpos := shape.hop_pos
  have hdiv := Nat.div_add_mod (shape.half + shape.hop - 1) shape.hop
  have hmod := Nat.mod_lt (shape.half + shape.hop - 1) hpos
  rw [Nat.add_mul, one_mul, Nat.mul_comm ((shape.half + shape.hop - 1) / shape.hop)]
  omega

/-- The audio kept starts within the audio there is. -/
theorem origin_le {total : ℕ} :
    (shape.ready total - shape.context) * shape.hop ≤ total := by
  rcases Nat.eq_zero_or_pos (shape.ready total) with h0 | hpos
  · simp [h0]
  · have hlast := shape.lt_ready (Nat.sub_lt hpos one_pos)
    have hcontext : 1 ≤ shape.context := Nat.succ_le_of_lt (Nat.succ_pos _)
    have := Nat.mul_le_mul_right shape.hop (Nat.sub_le_sub_left hcontext (shape.ready total))
    omega

end Shape

section Stream

variable {Sample Frame Encoded Caches S : Type} (M : Model Sample Frame Encoded Caches S)
  (whole : List Sample)

/-! ## Mel frames -/

/-- The frame that one pass over the whole signal gives. -/
def Model.frameOf (k : ℕ) : Frame := ((M.logMel whole)[k]?).getD M.zeroFrame

/-- The frames of one pass, by their numbers. -/
theorem map_frameOf {M : Model Sample Frame Encoded Caches S} {whole : List Sample}
    {start stop : ℕ} (hstop : stop ≤ (M.logMel whole).length) :
    (List.range' start (stop - start)).map (M.frameOf whole) =
      ((M.logMel whole).take stop).drop start := by
  refine List.ext_getElem? fun i => ?_
  rw [List.getElem?_map, List.getElem?_drop, List.getElem?_take]
  by_cases hi : i < stop - start
  · rw [List.getElem?_range' hi, if_pos (by omega), one_mul,
      List.getElem?_eq_getElem (show start + i < (M.logMel whole).length by omega)]
    simp [Model.frameOf, List.getElem?_eq_getElem
      (show start + i < (M.logMel whole).length by omega)]
  · rw [List.getElem?_eq_none (by simpa using hi), if_neg (by omega)]
    rfl

/-- The mel frames of a stream that was fed the audio. -/
structure Mel (fed : List Sample) (mel : MelStream Sample Frame) : Prop where
  audio : mel.audio = fed.drop mel.audioOrigin
  audioOrigin : mel.audioOrigin = (mel.count - M.shape.context) * M.shape.hop
  count : mel.count = M.shape.ready fed.length
  origin : mel.origin ≤ mel.count
  frames : mel.frames = if mel.count = 0 then none
    else some ((List.range' mel.origin (mel.count - mel.origin)).map (M.frameOf whole))

variable {M whole}

/-- A frame computed from where the audio kept starts is that of the whole signal. -/
theorem frame_of_slice (hmel : Centred M.logMel M.shape.hop M.shape.nFft)
    (heven : Even M.shape.nFft) {audio : List Sample} (hwhole : audio <+: whole) {count k : ℕ}
    (hcount : count ≤ k) (hk : k < M.shape.ready audio.length) :
    (M.logMel (audio.drop ((count - M.shape.context) * M.shape.hop)))[k -
      (count - M.shape.context)]? = some (M.frameOf whole k) := by
  have hhop := M.shape.hop_pos
  have hready := M.shape.lt_ready hk
  have hlen := hwhole.length_le
  have hcontext := M.shape.half_le_context
  set lo := count - M.shape.context with hlo
  have hsplit : k * M.shape.hop = (k - lo) * M.shape.hop + lo * M.shape.hop := by
    rw [← Nat.add_mul, Nat.sub_add_cancel (by omega)]
  have hlast : k ≤ whole.length / M.shape.hop :=
    (Nat.le_div_iff_mul_le hhop).mpr (by omega)
  have hsome : (M.logMel whole)[k]? = some (M.frameOf whole k) := by
    have hlt : k < (M.logMel whole).length := by rw [hmel.length]; omega
    unfold Model.frameOf
    rw [List.getElem?_eq_getElem hlt]
    rfl
  rw [← hsome]
  refine hmel.window _ _ _ _ ((Nat.le_div_iff_mul_le hhop).mpr ?_) hlast ?_
  · rw [List.length_drop]
    omega
  · intro i hi hi'
    have hhalf : (M.shape.nFft : ℤ) - (M.shape.nFft / 2 : ℕ) = M.shape.half := by
      unfold Shape.half
      obtain ⟨n, hn⟩ := heven
      omega
    rw [hhalf] at hi'
    have hi : -(M.shape.half : ℤ) - 1 ≤ i := hi
    have hcast : (k : ℤ) * M.shape.hop = ((k - lo : ℕ) : ℤ) * M.shape.hop + lo * M.shape.hop := by
      exact_mod_cast hsplit
    unfold sampleAt
    by_cases hin : 0 ≤ ((k - lo : ℕ) : ℤ) * M.shape.hop + i
    · -- the sample is in the slice, and so in the audio
      have hpos : (k : ℤ) * M.shape.hop + i =
          lo * M.shape.hop + (((k - lo : ℕ) : ℤ) * M.shape.hop + i) := by omega
      have hnonneg : (0 : ℤ) ≤ lo * M.shape.hop := by positivity
      rw [if_pos hin, if_pos (by omega), List.getElem?_drop]
      have hindex : ((k : ℤ) * M.shape.hop + i).toNat =
          lo * M.shape.hop + (((k - lo : ℕ) : ℤ) * M.shape.hop + i).toNat := by
        rw [hpos, Int.toNat_add hnonneg hin]
        rfl
      rw [hindex]
      obtain ⟨more, rfl⟩ := hwhole
      refine (List.getElem?_append_left ?_).symm
      have : (k : ℤ) * M.shape.hop + i < audio.length := by
        have : (k : ℤ) * M.shape.hop + M.shape.half ≤ audio.length := by exact_mod_cast hready
        omega
      omega
    · -- the slice starts with the signal
      rw [if_neg hin]
      have hzero : lo = 0 := by
        by_contra hne
        have hge : M.shape.context ≤ k - lo := by omega
        have := Nat.mul_le_mul_right M.shape.hop hge
        have hcast' : ((M.shape.half : ℤ) + M.shape.hop) ≤ ((k - lo : ℕ) : ℤ) * M.shape.hop := by
          exact_mod_cast hcontext.trans this
        omega
      rw [if_neg ?_]
      rw [hzero] at hin hcast
      simp only [Nat.cast_zero, zero_mul, add_zero] at hcast
      rwa [hcast]

/-- **One push.** -/
theorem Mel.push (hmel : Centred M.logMel M.shape.hop M.shape.nFft) (heven : Even M.shape.nFft)
    {audio samples : List Sample} {mel : MelStream Sample Frame} (h : Mel M whole audio mel)
    (hwhole : audio ++ samples <+: whole) :
    Mel M whole (audio ++ samples) (M.push mel samples) ∧
      (M.push mel samples).origin = mel.origin := by
  have horigin : mel.audioOrigin ≤ audio.length := by
    rw [h.audioOrigin, h.count]
    exact M.shape.origin_le
  have hmore : mel.audio ++ samples = (audio ++ samples).drop mel.audioOrigin := by
    rw [h.audio, List.drop_append_of_le_length horigin]
  have htotal : mel.audioOrigin + (mel.audio ++ samples).length = (audio ++ samples).length := by
    rw [hmore, List.length_drop, List.length_append]
    omega
  have hmono : mel.count ≤ M.shape.ready (audio ++ samples).length := by
    rw [h.count]
    exact M.shape.ready_mono (by simp)
  unfold Model.push
  dsimp only
  rw [htotal]
  split
  · next hshort =>
    have h0 : M.shape.ready (audio ++ samples).length = 0 := if_pos hshort
    exact ⟨⟨hmore, h.audioOrigin, by dsimp only; omega, h.origin, h.frames⟩, rfl⟩
  · next hlong =>
    have hready : ((audio ++ samples).length - M.shape.half) / M.shape.hop + 1 =
        M.shape.ready (audio ++ samples).length := (if_neg hlong).symm
    rw [hready]
    split
    · exact ⟨⟨hmore, h.audioOrigin, by dsimp only; omega, h.origin, h.frames⟩, rfl⟩
    · next hnew =>
      generalize hr : M.shape.ready (audio ++ samples).length = ready at *
      have hlo : (mel.count - M.shape.context) * M.shape.hop = mel.audioOrigin :=
        h.audioOrigin.symm
      have hdrop : mel.audioOrigin + ((ready - M.shape.context) * M.shape.hop - mel.audioOrigin) =
          (ready - M.shape.context) * M.shape.hop := by
        have := Nat.mul_le_mul_right M.shape.hop
          (Nat.sub_le_sub_right (not_le.mp hnew).le M.shape.context)
        omega
      have hnext : ((M.logMel ((mel.audio ++ samples).drop
            ((mel.count - M.shape.context) * M.shape.hop - mel.audioOrigin))).drop
            ((mel.count * M.shape.hop - (mel.count - M.shape.context) * M.shape.hop) /
              M.shape.hop)).take (ready - mel.count) =
          (List.range' mel.count (ready - mel.count)).map (M.frameOf whole) := by
        have hfirst : (mel.count * M.shape.hop - (mel.count - M.shape.context) * M.shape.hop) /
            M.shape.hop = mel.count - (mel.count - M.shape.context) := by
          rw [← Nat.sub_mul, Nat.mul_div_cancel _ M.shape.hop_pos]
        rw [hfirst, hlo, Nat.sub_self, List.drop_zero, hmore, ← hlo]
        refine List.ext_getElem? fun i => ?_
        rw [List.getElem?_take, List.getElem?_drop, List.getElem?_map]
        split
        · next hi =>
          rw [List.getElem?_range' hi, one_mul]
          have hk := frame_of_slice hmel heven hwhole (show mel.count ≤ mel.count + i by omega)
            (by omega)
          rw [show mel.count - (mel.count - M.shape.context) + i =
            mel.count + i - (mel.count - M.shape.context) by omega]
          exact hk
        · next hi =>
          rw [List.getElem?_eq_none (by simpa using hi)]
          rfl
      refine ⟨⟨?_, hdrop, by dsimp only; omega, by dsimp only; have := h.origin; omega, ?_⟩, rfl⟩
      · dsimp only
        rw [hmore, List.drop_drop, hdrop]
      · dsimp only
        rw [hnext, if_neg (by omega), h.frames]
        by_cases h0 : mel.count = 0
        · have := h.origin
          rw [if_pos h0, h0, show mel.origin = 0 by omega]
          rfl
        · rw [if_neg h0]
          show some (_ ++ _) = _
          have hcount := h.origin
          have hfrom : (List.range' mel.count (ready - mel.count)).map (M.frameOf whole) =
              (List.range' (mel.origin + (mel.count - mel.origin)) (ready - mel.count)).map
                (M.frameOf whole) := by
            rw [Nat.add_sub_cancel' hcount]
          rw [hfrom, ← List.map_append, List.range'_append_1,
            show mel.count - mel.origin + (ready - mel.count) = ready - mel.origin by omega]

/-- The frames asked of a mel that keeps them: zeros before the signal, then those of the whole. -/
theorem Mel.kept {fed : List Sample} {mel : MelStream Sample Frame} (h : Mel M whole fed mel)
    (start : ℤ) (stop : ℕ) (hstart : mel.origin ≤ start.toNat) (hle : start.toNat ≤ stop)
    (hstop : stop ≤ mel.count) :
    M.frames mel start stop = List.replicate (-start).toNat M.zeroFrame ++
      (List.range' start.toNat (stop - start.toNat)).map (M.frameOf whole) := by
  have hlead : (max 0 (-start)).toNat = (-start).toNat := by omega
  have hfrom : (max start 0 - mel.origin).toNat = start.toNat - mel.origin := by omega
  have hto : ((stop : ℤ) - mel.origin).toNat = stop - mel.origin := by omega
  unfold Model.frames
  dsimp only
  rw [hlead, hfrom, hto, h.frames]
  congr 1
  by_cases h0 : mel.count = 0
  · rw [if_pos h0, show stop - start.toNat = 0 by omega]
    rfl
  · rw [if_neg h0]
    refine List.ext_getElem? fun i => ?_
    show (((List.range' mel.origin (mel.count - mel.origin)).map (M.frameOf whole)).take
      (stop - mel.origin) |>.drop (start.toNat - mel.origin))[i]? = _
    rw [List.getElem?_drop, List.getElem?_take, List.getElem?_map, List.getElem?_map]
    by_cases hi : i < stop - start.toNat
    · rw [if_pos (by omega), List.getElem?_range' (by omega), List.getElem?_range' hi]
      simp only [Option.map_some]
      congr 2
      omega
    · rw [if_neg (by omega), List.getElem?_eq_none (by simp; omega)]
      rfl

variable (M whole) in
/-- What the encoder is given at step `k`: the frames from `k * chunk - pre_cache` to
`(k + 1) * chunk`, zeros before the signal. -/
def Model.input (k : ℕ) : List Frame :=
  (List.range (M.shape.preCache + M.shape.chunk)).map fun i =>
    if k * M.shape.chunk + i < M.shape.preCache then M.zeroFrame
    else M.frameOf whole (k * M.shape.chunk + i - M.shape.preCache)

theorem Mel.input {fed : List Sample} {mel : MelStream Sample Frame} (h : Mel M whole fed mel)
    {n : ℕ} (horigin : mel.origin = n * M.shape.chunk - M.shape.preCache)
    (hcount : n * M.shape.chunk + M.shape.chunk ≤ mel.count) :
    M.frames mel (((n * M.shape.chunk : ℕ) : ℤ) - M.shape.preCache)
        (((n * M.shape.chunk : ℕ) : ℤ) + M.shape.chunk) = M.input whole n := by
  have hkept := h.kept (((n * M.shape.chunk : ℕ) : ℤ) - M.shape.preCache)
    (n * M.shape.chunk + M.shape.chunk) (by omega) (by omega) hcount
  rw [Nat.cast_add] at hkept
  rw [hkept]
  unfold Model.input
  generalize n * M.shape.chunk = at' at *
  refine List.ext_getElem? fun i => ?_
  rw [List.getElem?_map]
  by_cases hi : i < M.shape.preCache + M.shape.chunk
  · rw [List.getElem?_range hi]
    simp only [Option.map_some]
    by_cases hlead : at' + i < M.shape.preCache
    · rw [if_pos hlead, List.getElem?_append_left (by simp; omega),
        List.getElem?_replicate, if_pos (by omega)]
    · rw [if_neg hlead, List.getElem?_append_right (by simp; omega), List.getElem?_map,
        List.length_replicate, List.getElem?_range' (by omega)]
      simp only [Option.map_some]
      congr 2
      omega
  · rw [List.getElem?_eq_none (by simp; omega), List.getElem?_eq_none (by simp; omega)]
    rfl

/-- What is forgotten is not asked for again. -/
theorem Mel.release {fed : List Sample} {mel : MelStream Sample Frame} (h : Mel M whole fed mel)
    (before : ℤ) (hle : before ≤ mel.count) (horigin : mel.origin ≤ before.toNat)
    (hpos : mel.count ≠ 0) :
    Mel M whole fed (mel.release before) ∧ (mel.release before).origin = before.toNat ∧
      (mel.release before).count = mel.count := by
  have hframes : mel.frames =
      some ((List.range' mel.origin (mel.count - mel.origin)).map (M.frameOf whole)) := by
    rw [h.frames, if_neg hpos]
  unfold MelStream.release
  rw [hframes]
  dsimp only
  split
  · next hlt =>
    refine ⟨⟨h.audio, h.audioOrigin, h.count, by dsimp only; omega, ?_⟩, rfl, rfl⟩
    dsimp only
    rw [if_neg hpos, ← List.map_drop, List.drop_range', mul_one]
    congr 3 <;> omega
  · next hge => exact ⟨h, by omega, rfl⟩

/-! ## Steps -/

variable (M whole) in
/-- The caches and the decoder after `n` steps over the whole signal. -/
def Model.after : ℕ → Caches × Decoder S
  | 0 => (M.zeroCaches, { state := M.zeroState, prev := M.blank })
  | n + 1 => (M.network (M.input whole n) (Model.after n).1 (Model.after n).2).2

variable (M whole) in
/-- The tokens of step `n`. -/
def Model.stepTokens (n : ℕ) : List ℕ :=
  (M.network (M.input whole n) (M.after whole n).1 (M.after whole n).2).1

variable (M whole) in
/-- The tokens of the steps from `a` to `b`. -/
def Model.tokens (a b : ℕ) : List ℕ := (List.range' a (b - a)).flatMap (M.stepTokens whole)

theorem tokens_append {a b c : ℕ} (hab : a ≤ b) (hbc : b ≤ c) :
    M.tokens whole a b ++ M.tokens whole b c = M.tokens whole a c := by
  obtain ⟨n, rfl⟩ := Nat.exists_eq_add_of_le hab
  obtain ⟨m, rfl⟩ := Nat.exists_eq_add_of_le hbc
  unfold Model.tokens
  rw [Nat.add_sub_cancel_left, Nat.add_sub_cancel_left, ← List.flatMap_append,
    List.range'_append_1, show a + n + m - a = n + m by omega]

variable (M whole) in
/-- A stream that was fed the audio and has taken `n` steps. -/
structure At (fed : List Sample) (n : ℕ) (stream : Stream Sample Frame Caches S) : Prop where
  mel : Mel M whole fed stream.mel
  nextFrame : stream.nextFrame = n * M.shape.chunk
  origin : stream.mel.origin = n * M.shape.chunk - M.shape.preCache
  le : n * M.shape.chunk ≤ stream.mel.count
  networks : (stream.caches, stream.decoder) = M.after whole n
  inputs : stream.inputs = (List.range n).map (M.input whole)

theorem at_start (heven : Even M.shape.nFft) : At M whole [] 0 M.start := by
  refine ⟨⟨rfl, by simp [Model.start], (M.shape.ready_zero heven).symm, le_rfl, rfl⟩,
    ?_, ?_, ?_, rfl, rfl⟩
  · show 0 = 0 * _
    omega
  · show 0 = 0 * _ - _
    omega
  · show 0 * _ ≤ 0
    omega

/-- **One step** is given the frames of its chunk, and leaves the stream at the next. -/
theorem At.step {fed : List Sample} {n : ℕ} {stream : Stream Sample Frame Caches S}
    (h : At M whole fed n stream)
    (hcount : n * M.shape.chunk + M.shape.chunk ≤ stream.mel.count) :
    (M.step stream).1 = M.stepTokens whole n ∧
      At M whole fed (n + 1)
        { (M.step stream).2 with
          nextFrame := stream.nextFrame + M.shape.chunk
          mel := stream.mel.release
            (((stream.nextFrame + M.shape.chunk : ℕ) : ℤ) - M.shape.preCache) } := by
  have hchunk := M.shape.chunk_pos
  have hinput := h.mel.input h.origin hcount
  rw [← h.nextFrame] at hinput
  have hcaches : stream.caches = (M.after whole n).1 := congrArg Prod.fst h.networks
  have hdecoder : stream.decoder = (M.after whole n).2 := congrArg Prod.snd h.networks
  have hstep : M.step stream = ((M.network (M.input whole n) (M.after whole n).1
      (M.after whole n).2).1, { stream with
        caches := (M.after whole (n + 1)).1
        decoder := (M.after whole (n + 1)).2
        inputs := stream.inputs ++ [M.input whole n] }) := by
    unfold Model.step
    dsimp only
    rw [hinput, hcaches, hdecoder]
    rfl
  have hmul : (n + 1) * M.shape.chunk = n * M.shape.chunk + M.shape.chunk := Nat.succ_mul _ _
  obtain ⟨hmel, horigin, hsame⟩ := h.mel.release
    (((stream.nextFrame + M.shape.chunk : ℕ) : ℤ) - M.shape.preCache)
    (by rw [h.nextFrame]; omega) (by rw [h.origin, h.nextFrame]; omega) (by omega)
  rw [hstep]
  refine ⟨rfl, hmel, ?_, ?_, ?_, rfl, ?_⟩
  · dsimp only
    rw [h.nextFrame, hmul]
  · dsimp only
    rw [horigin, h.nextFrame, hmul]
    omega
  · dsimp only
    rw [hsame, hmul]
    exact hcount
  · dsimp only
    rw [h.inputs, List.range_succ, List.map_append]
    rfl

theorem At.le_steps {fed : List Sample} {n : ℕ} {stream : Stream Sample Frame Caches S}
    (h : At M whole fed n stream) : n ≤ M.shape.steps fed.length := by
  have hle := h.le
  rw [h.mel.count] at hle
  exact (Nat.le_div_iff_mul_le M.shape.chunk_pos).mpr hle

/-- The loop takes the steps that are left. Induction on the fuel, which covers them. -/
theorem At.stepAll {fed : List Sample} : ∀ (fuel : ℕ) {n : ℕ}
    {stream : Stream Sample Frame Caches S}, At M whole fed n stream →
      M.shape.steps fed.length ≤ n + fuel →
      (M.stepAll fuel stream).1 = M.tokens whole n (M.shape.steps fed.length) ∧
        At M whole fed (M.shape.steps fed.length) (M.stepAll fuel stream).2
  | 0, n, stream, h, hfuel => by
    obtain rfl : n = M.shape.steps fed.length := le_antisymm h.le_steps hfuel
    exact ⟨by simp [Model.stepAll, Model.tokens], h⟩
  | fuel + 1, n, stream, h, hfuel => by
    unfold Model.stepAll
    by_cases hcount : n * M.shape.chunk + M.shape.chunk ≤ stream.mel.count
    · rw [if_pos (by rw [h.nextFrame]; exact hcount)]
      obtain ⟨htokens, hnext⟩ := h.step hcount
      obtain ⟨hmore, hend⟩ := hnext.stepAll fuel (by omega)
      have hone : M.tokens whole n (n + 1) = M.stepTokens whole n := by simp [Model.tokens]
      refine ⟨?_, hend⟩
      show (M.step stream).1 ++ (M.stepAll fuel _).1 = _
      rw [← tokens_append (Nat.le_succ n) hnext.le_steps, hone, ← hmore, htokens]
      rfl
    · rw [if_neg (by rw [h.nextFrame]; exact hcount)]
      have hsame : n = M.shape.steps fed.length := by
        refine le_antisymm h.le_steps ?_
        by_contra hlt
        have hle : n + 1 ≤ M.shape.ready fed.length / M.shape.chunk := not_le.mp hlt
        have := (Nat.le_div_iff_mul_le M.shape.chunk_pos).mp hle
        rw [← h.mel.count, Nat.succ_mul] at this
        exact hcount this
      rw [← hsame]
      exact ⟨by simp [Model.tokens], h⟩

/-- **One feed** takes the steps that the audio completes, whatever came before. -/
theorem At.feed (hmel : Centred M.logMel M.shape.hop M.shape.nFft) (heven : Even M.shape.nFft)
    {fed samples : List Sample} {stream : Stream Sample Frame Caches S}
    (h : At M whole fed (M.shape.steps fed.length) stream) (hwhole : fed ++ samples <+: whole) :
    (M.feed stream samples).1 = detokenize M.pieces (M.tokens whole (M.shape.steps fed.length)
        (M.shape.steps (fed ++ samples).length)) ∧
      At M whole (fed ++ samples) (M.shape.steps (fed ++ samples).length)
        (M.feed stream samples).2 := by
  obtain ⟨hpush, horigin⟩ := h.mel.push hmel heven hwhole
  have hmore : At M whole (fed ++ samples) (M.shape.steps fed.length)
      { stream with mel := M.push stream.mel samples } := by
    refine ⟨hpush, h.nextFrame, horigin.trans h.origin, ?_, h.networks, h.inputs⟩
    show _ ≤ (M.push stream.mel samples).count
    rw [hpush.count]
    have hle := h.le
    rw [h.mel.count] at hle
    exact hle.trans (M.shape.ready_mono (by simp))
  have hfuel : M.shape.steps (fed ++ samples).length ≤
      M.shape.steps fed.length + (M.push stream.mel samples).count := by
    rw [hpush.count]
    have : M.shape.steps (fed ++ samples).length ≤ M.shape.ready (fed ++ samples).length :=
      Nat.div_le_self _ _
    omega
  obtain ⟨htokens, hend⟩ := hmore.stepAll _ hfuel
  refine ⟨?_, hend⟩
  show detokenize M.pieces (M.stepAll _ _).1 = _
  rw [htokens]

/-- Feeds, one after the other. Induction on the chunks. -/
theorem At.feeds (hmel : Centred M.logMel M.shape.hop M.shape.nFft) (heven : Even M.shape.nFft) :
    ∀ (chunks : List (List Sample)) {fed : List Sample} {stream : Stream Sample Frame Caches S},
      At M whole fed (M.shape.steps fed.length) stream → fed ++ chunks.flatten <+: whole →
      At M whole (fed ++ chunks.flatten) (M.shape.steps (fed ++ chunks.flatten).length)
        (M.feeds chunks stream).2
  | [], fed, stream, h, _ => by simpa [Model.feeds] using h
  | samples :: chunks, fed, stream, h, hwhole => by
    rw [List.flatten_cons, ← List.append_assoc] at hwhole ⊢
    obtain ⟨-, hnext⟩ := h.feed hmel heven ((List.prefix_append _ _).trans hwhole)
    exact hnext.feeds hmel heven chunks hwhole

/-! ## Texts -/

variable (M whole) in
/-- No language tag, with the space before it, lies across two of the first `K` steps. -/
def Clear (K : ℕ) : Prop :=
  ∀ k, 0 < k → k < K → ¬ Straddles (joined M.pieces (M.tokens whole 0 k))
    (joined M.pieces (M.tokens whole k K))

theorem Clear.seam {a b c K : ℕ} (h : Clear M whole K) (hab : a ≤ b) (hbc : b ≤ c) (hcK : c ≤ K) :
    ¬ Straddles (joined M.pieces (M.tokens whole a b)) (joined M.pieces (M.tokens whole b c)) := by
  intro hs
  have hfront : M.tokens whole 0 a ++ M.tokens whole a b = M.tokens whole 0 b :=
    tokens_append (Nat.zero_le a) hab
  have hback : M.tokens whole b c ++ M.tokens whole c K = M.tokens whole b K :=
    tokens_append hbc hcK
  have hmono : Straddles (joined M.pieces (M.tokens whole 0 b))
      (joined M.pieces (M.tokens whole b K)) := by
    rw [← hfront, ← hback, joined_append, joined_append]
    exact hs.mono (List.suffix_append _ _) (List.prefix_append _ _)
  rcases Nat.eq_zero_or_pos b with rfl | hpos
  · obtain ⟨m1, m2, h1, -, hm1, -⟩ := hmono
    exact h1 (List.suffix_nil.mp hm1)
  · rcases Nat.lt_or_ge b K with hlt | hge
    · exact h b hpos hlt hmono
    · have hnil : M.tokens whole b K = [] := by simp [Model.tokens, Nat.sub_eq_zero_of_le hge]
      obtain ⟨m1, m2, -, h2, -, hm2, -⟩ := hmono
      rw [hnil] at hm2
      exact h2 (List.prefix_nil.mp hm2)

/-- Text taken in two parts is that of the whole, with no tag across the seam. -/
theorem detokenize_append {a b c : ℕ} (hab : a ≤ b) (hbc : b ≤ c)
    (hseam : ¬ Straddles (joined M.pieces (M.tokens whole a b))
      (joined M.pieces (M.tokens whole b c))) :
    detokenize M.pieces (M.tokens whole a b) ++ detokenize M.pieces (M.tokens whole b c) =
      detokenize M.pieces (M.tokens whole a c) := by
  unfold detokenize
  rw [← tokens_append hab hbc, joined_append, dropTags_append hseam]

theorem steps_mono {a b : ℕ} (h : a ≤ b) : M.shape.steps a ≤ M.shape.steps b :=
  Nat.div_le_div_right (M.shape.ready_mono h)

/-- With no tag across two steps, the text does not depend on the chunks. Induction on them. -/
theorem At.feeds_text (hmel : Centred M.logMel M.shape.hop M.shape.nFft)
    (heven : Even M.shape.nFft) {K : ℕ} (hclear : Clear M whole K) :
    ∀ (chunks : List (List Sample)) {fed : List Sample} {stream : Stream Sample Frame Caches S},
      At M whole fed (M.shape.steps fed.length) stream → fed ++ chunks.flatten <+: whole →
      M.shape.steps (fed ++ chunks.flatten).length ≤ K →
      (M.feeds chunks stream).1 = detokenize M.pieces (M.tokens whole (M.shape.steps fed.length)
        (M.shape.steps (fed ++ chunks.flatten).length))
  | [], fed, stream, _, _,
    _ => by simp [Model.feeds, Model.tokens, detokenize, joined, dropTags, scan]
  | samples :: chunks, fed, stream, h, hwhole, hK => by
    rw [List.flatten_cons, ← List.append_assoc] at hwhole hK ⊢
    obtain ⟨htext, hnext⟩ := h.feed hmel heven ((List.prefix_append _ _).trans hwhole)
    have hrest := hnext.feeds_text hmel heven hclear chunks hwhole hK
    have hab : M.shape.steps fed.length ≤ M.shape.steps (fed ++ samples).length :=
      steps_mono (by simp)
    have hbc : M.shape.steps (fed ++ samples).length ≤
        M.shape.steps (fed ++ samples ++ chunks.flatten).length := steps_mono (by simp)
    show (M.feed stream samples).1 ++ (M.feeds chunks (M.feed stream samples).2).1 = _
    rw [htext, hrest, detokenize_append hab hbc (hclear.seam hab hbc hK)]

theorem steps_nil (heven : Even M.shape.nFft) : M.shape.steps ([] : List Sample).length = 0 := by
  unfold Shape.steps
  rw [List.length_nil, M.shape.ready_zero heven, Nat.zero_div]

theorem start_steps (heven : Even M.shape.nFft) :
    At M whole [] (M.shape.steps ([] : List Sample).length) M.start := by
  rw [steps_nil heven]
  exact at_start heven

/-- The text of a session is what its feeds return, and the steps of `finish`. -/
theorem text_eq (hmel : Centred M.logMel M.shape.hop M.shape.nFft) (heven : Even M.shape.nFft)
    {audio : List Sample} {chunks : List (List Sample)} (haudio : chunks.flatten = audio) :
    M.text chunks = (M.feeds chunks M.start).1 ++
      detokenize M.pieces (M.tokens (audio ++ M.flush) (M.shape.steps audio.length)
        (M.shape.steps (audio ++ M.flush).length)) := by
  have hstart : At M (audio ++ M.flush) [] _ M.start := start_steps heven
  have hfed := hstart.feeds hmel heven chunks
    (by rw [List.nil_append, haudio]; exact List.prefix_append _ _)
  rw [List.nil_append, haudio] at hfed
  rw [← (hfed.feed hmel heven (List.prefix_refl _)).1]
  rfl

/-- The text of a session without a tag across two of the steps before `finish`. -/
theorem text_of_clear (hmel : Centred M.logMel M.shape.hop M.shape.nFft)
    (heven : Even M.shape.nFft) {audio : List Sample} {chunks : List (List Sample)}
    (haudio : chunks.flatten = audio)
    (hclear : Clear M (audio ++ M.flush) (M.shape.steps audio.length)) :
    M.text chunks =
      detokenize M.pieces (M.tokens (audio ++ M.flush) 0 (M.shape.steps audio.length)) ++
        detokenize M.pieces (M.tokens (audio ++ M.flush) (M.shape.steps audio.length)
          (M.shape.steps (audio ++ M.flush).length)) := by
  have hstart : At M (audio ++ M.flush) [] _ M.start := start_steps heven
  have htext := hstart.feeds_text hmel heven hclear chunks
    (by rw [List.nil_append, haudio]; exact List.prefix_append _ _)
    (by rw [List.nil_append, haudio])
  rw [List.nil_append, haudio, steps_nil heven] at htext
  rw [text_eq hmel heven haudio, htext]

/-- Audio that has just completed `k` steps. -/
theorem exists_take {total k : ℕ} (hpos : 0 < k) (hk : k ≤ M.shape.steps total) :
    ∃ m ≤ total, M.shape.steps m = k := by
  have hchunk := M.shape.chunk_pos
  have hmul : k * M.shape.chunk ≤ M.shape.ready total :=
    (Nat.le_div_iff_mul_le hchunk).mp hk
  have hone : 1 ≤ k * M.shape.chunk := Nat.mul_pos hpos hchunk
  have hlast := M.shape.lt_ready (show k * M.shape.chunk - 1 < M.shape.ready total by omega)
  refine ⟨_, hlast, ?_⟩
  unfold Shape.steps Shape.ready
  rw [if_neg (by omega), Nat.add_sub_cancel, Nat.mul_div_cancel _ M.shape.hop_pos,
    Nat.sub_add_cancel hone, Nat.mul_div_cancel _ hchunk]

/-- Text taken on both sides of a tag is not that of the whole. -/
theorem text_of_straddling (hmel : Centred M.logMel M.shape.hop M.shape.nFft)
    (heven : Even M.shape.nFft) {audio : List Sample} {k : ℕ} (hpos : 0 < k)
    (hk : k < M.shape.steps audio.length)
    (hs : Straddles (joined M.pieces (M.tokens (audio ++ M.flush) 0 k))
      (joined M.pieces (M.tokens (audio ++ M.flush) k (M.shape.steps audio.length)))) :
    ∃ m, M.text [audio.take m, audio.drop m] ≠ M.text [audio] := by
  obtain ⟨m, hm, hsteps⟩ := exists_take hpos hk.le
  refine ⟨m, fun heq => ?_⟩
  have hstart : At M (audio ++ M.flush) [] _ M.start := start_steps heven
  obtain ⟨htake, hnext⟩ := hstart.feed hmel heven
    (show [] ++ audio.take m <+: audio ++ M.flush from
      (List.take_prefix m audio).trans (List.prefix_append _ _))
  obtain ⟨hdrop, -⟩ := hnext.feed hmel heven
    (show [] ++ audio.take m ++ audio.drop m <+: audio ++ M.flush by
      rw [List.nil_append, List.take_append_drop]; exact List.prefix_append _ _)
  obtain ⟨hwhole, -⟩ := hstart.feed hmel heven
    (show [] ++ audio <+: audio ++ M.flush from List.prefix_append _ _)
  rw [List.nil_append, steps_nil heven] at htake hwhole
  rw [List.nil_append, List.take_append_drop] at hdrop
  rw [List.length_take, min_eq_left hm, hsteps] at htake hdrop
  rw [text_eq hmel heven (show [audio.take m, audio.drop m].flatten = audio by simp),
    text_eq hmel heven (show [audio].flatten = audio by simp)] at heq
  have hparts := List.append_cancel_right heq
  have htwo : (M.feeds [audio.take m, audio.drop m] M.start).1 =
      (M.feed M.start (audio.take m)).1 ++
        ((M.feed (M.feed M.start (audio.take m)).2 (audio.drop m)).1 ++ []) := rfl
  have hone : (M.feeds [audio] M.start).1 = (M.feed M.start audio).1 ++ [] := rfl
  rw [htwo, hone, htake, hdrop, hwhole, List.append_nil, List.append_nil] at hparts
  have hless := length_dropTags_append hs
  rw [← joined_append, tokens_append (Nat.zero_le k) hk.le] at hless
  have hlength := congrArg List.length hparts
  rw [List.length_append] at hlength
  unfold detokenize at hlength
  omega

/-- **What Nemotron streaming depends on.** What the encoder is given, and the frames that are kept,
are those of one pass over the whole signal, however the audio is split. The text returned is the
same for every splitting exactly where no language tag lies across two of the steps before
`finish`; over a vocabulary whose tags are whole pieces that is always so. -/
theorem streaming_chunks (M : Model Sample Frame Encoded Caches S)
    (hmel : Centred M.logMel M.shape.hop M.shape.nFft) (heven : Even M.shape.nFft)
    (audio : List Sample) :
    (∀ chunks : List (List Sample), chunks.flatten <+: audio ++ M.flush →
      (M.feeds chunks M.start).2.inputs =
        (List.range (M.shape.steps chunks.flatten.length)).map (M.input (audio ++ M.flush)) ∧
      ∀ start stop : ℕ, (M.feeds chunks M.start).2.mel.origin ≤ start → start ≤ stop →
        stop ≤ (M.feeds chunks M.start).2.mel.count →
        M.frames (M.feeds chunks M.start).2.mel start stop =
          ((M.logMel (audio ++ M.flush)).take stop).drop start) ∧
    ((∀ chunks chunks' : List (List Sample), chunks.flatten = audio → chunks'.flatten = audio →
        M.text chunks = M.text chunks') ↔
      Clear M (audio ++ M.flush) (M.shape.steps audio.length)) ∧
    (WholeTags M.pieces → ∀ chunks chunks' : List (List Sample), chunks.flatten = audio →
      chunks'.flatten = audio → M.text chunks = M.text chunks') := by
  have hclear : Clear M (audio ++ M.flush) (M.shape.steps audio.length) →
      ∀ chunks chunks' : List (List Sample), chunks.flatten = audio → chunks'.flatten = audio →
        M.text chunks = M.text chunks' := by
    intro hclear chunks chunks' h h'
    rw [text_of_clear hmel heven h hclear, text_of_clear hmel heven h' hclear]
  refine ⟨?_, ⟨?_, hclear⟩, ?_⟩
  · intro chunks hwhole
    have hfed : At M (audio ++ M.flush) _ _ _ := (start_steps heven).feeds hmel heven chunks
      (by rwa [List.nil_append])
    rw [List.nil_append] at hfed
    refine ⟨hfed.inputs, fun start stop hstart hle hstop => ?_⟩
    rw [hfed.mel.kept start stop (by simpa using hstart) (by simpa using hle) hstop]
    have hlength : stop ≤ (M.logMel (audio ++ M.flush)).length := by
      have hready : stop ≤ M.shape.ready (audio ++ M.flush).length :=
        hstop.trans (hfed.mel.count.le.trans (M.shape.ready_mono hwhole.length_le))
      rw [hmel.length]
      refine hready.trans ?_
      unfold Shape.ready
      split
      · exact Nat.zero_le _
      · exact Nat.succ_le_succ (Nat.div_le_div_right (Nat.sub_le _ _))
    have hnone : (-(start : ℤ)).toNat = 0 := by omega
    rw [hnone, List.replicate_zero, List.nil_append, Int.toNat_natCast, map_frameOf hlength]
  · intro hsame k hpos hk hs
    obtain ⟨m, hm⟩ := text_of_straddling hmel heven hpos hk hs
    exact hm (hsame _ _ (by simp) (by simp))
  · exact fun hwhole => hclear fun k _ _ => not_straddles_of_wholeTags hwhole _ _

end Stream

/-! ## A model whose frames are windows -/

/-- The windows of a signal, each with the sample before it. -/
def windows (hop nFft : ℕ) (x : List ℕ) : List (List (Option ℕ)) :=
  (List.range (x.length / hop + 1)).map fun k : ℕ =>
    (List.range (nFft + 1)).map fun i : ℕ => sampleAt x (k * hop + (i - (nFft / 2 : ℕ) - 1))

theorem windows_centred (hop nFft : ℕ) : Centred (windows hop nFft) hop nFft where
  length x := by simp [windows]
  window x y j k hj hk h := by
    unfold windows
    rw [List.getElem?_map, List.getElem?_map, List.getElem?_range (by omega),
      List.getElem?_range (by omega)]
    simp only [Option.map_some, Option.some.injEq]
    refine List.map_congr_left fun i hi => h _ ?_ ?_
    · omega
    · have := List.mem_range.mp hi
      omega

/-- A network that takes one token at each of its first two steps: a word start, and a tag. -/
def wordThenTag : Model ℕ (List (Option ℕ)) ℕ ℕ ℕ where
  shape := ⟨1, 1, 1, 2, Nat.one_pos, Nat.one_pos, Nat.two_pos⟩
  pieces := [['▁'], ['<', 'e', 'n', '-', 'U', 'S', '>'], []]
  logMel := windows 1 2
  silence := 0
  zeroFrame := []
  encoder _ n := ([n], 1, n + 1)
  prompt := none
  joint frame _ state :=
    (if state = frame ∧ frame = 0 then [1, 0, 0] else
      if state = frame ∧ frame = 1 then [0, 1, 0] else [0, 0, 1], state + 1)
  zeroCaches := 0
  zeroState := 0

/-- The space before a tag is kept where it was returned before the tag came. -/
theorem tag_across_chunks :
    Centred wordThenTag.logMel wordThenTag.shape.hop wordThenTag.shape.nFft ∧
      Even wordThenTag.shape.nFft ∧ ∃ chunks chunks' : List (List ℕ),
        chunks.flatten = chunks'.flatten ∧ wordThenTag.text chunks ≠ wordThenTag.text chunks' := by
  have heven : Even wordThenTag.shape.nFft := by decide
  have hcentred : Centred wordThenTag.logMel wordThenTag.shape.hop wordThenTag.shape.nFft :=
    windows_centred 1 2
  refine ⟨hcentred, heven, ?_⟩
  have hsteps : wordThenTag.shape.steps [0, 0].length = 2 := by decide
  have hword : joined wordThenTag.pieces (wordThenTag.tokens ([0, 0] ++ wordThenTag.flush) 0 1) =
      [' '] := by decide +kernel
  have htag : joined wordThenTag.pieces (wordThenTag.tokens ([0, 0] ++ wordThenTag.flush) 1 2) =
      ['<', 'e', 'n', '-', 'U', 'S', '>'] := by decide +kernel
  have hs : Straddles
      (joined wordThenTag.pieces (wordThenTag.tokens ([0, 0] ++ wordThenTag.flush) 0 1))
      (joined wordThenTag.pieces (wordThenTag.tokens ([0, 0] ++ wordThenTag.flush) 1
        (wordThenTag.shape.steps [0, 0].length))) := by
    rw [hsteps, hword, htag]
    exact ⟨_, _, by decide, by decide, List.suffix_rfl, List.prefix_rfl, by decide⟩
  obtain ⟨m, hm⟩ := text_of_straddling hcentred heven one_pos (by rw [hsteps]; decide) hs
  exact ⟨_, _, by simp, hm⟩

/-- A tag that is one piece, with the word start it carries. -/
theorem wholeTags_piece : WholeTags [['▁', '<', 'e', 'n', '-', 'U', 'S', '>'], []] := by
  intro t u v h
  have hpiece : joined [['▁', '<', 'e', 'n', '-', 'U', 'S', '>'], []] [t] = [] ∨
      joined [['▁', '<', 'e', 'n', '-', 'U', 'S', '>'], []] [t] =
        [' ', '<', 'e', 'n', '-', 'U', 'S', '>'] := by
    rcases t with - | - | t
    · exact .inr (by decide)
    · exact .inl (by decide)
    · exact .inl (by simp [joined])
  rcases hpiece with hnil | hpiece
  · rw [hnil] at h
    exact absurd h.symm (by simp)
  · rw [hpiece] at h
    -- the bracket is the second character
    rcases u with - | ⟨c, - | ⟨d, u⟩⟩
    · cases h
    · have hc : ' ' = c := (List.cons.inj h).1
      have hv : ['e', 'n', '-', 'U', 'S', '>'] = v := (List.cons.inj (List.cons.inj h).2).2
      subst hc hv
      exact ⟨by decide, fun _ _ _ _ => rfl⟩
    · have hrest : ['e', 'n', '-', 'U', 'S', '>'] = u ++ '<' :: v :=
        (List.cons.inj (List.cons.inj h).2).2
      have hmem : '<' ∈ ['e', 'n', '-', 'U', 'S', '>'] := by
        rw [hrest]
        simp
      exact absurd hmem (by decide)

/-- A model with that vocabulary: two samples come one by one, or at once. -/
theorem wholeTags_text :
    { wordThenTag with
      pieces := [['▁', '<', 'e', 'n', '-', 'U', 'S', '>'], []] }.text [[0], [0]] =
    { wordThenTag with
      pieces := [['▁', '<', 'e', 'n', '-', 'U', 'S', '>'], []] }.text [[0, 0]] :=
  (streaming_chunks
    { wordThenTag with pieces := [['▁', '<', 'e', 'n', '-', 'U', 'S', '>'], []] }
    (windows_centred 1 2) (by decide) [0, 0]).2.2 wholeTags_piece _ _ rfl rfl

end Nemotron

end Myna
