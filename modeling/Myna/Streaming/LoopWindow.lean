import Myna.Streaming.LoopFrame

/-!
# Myna — the bounded window along a run (I6)

* **`Bounded`** — the invariant: the window tracks the bytes of the audio (`RollingWindow.Tracks`),
  what is still to come follows it, and every decode so far was a slice of the stream no longer
  than the cap, at the offset of its first sample;
* **`step_bounded`** — every control point keeps it, by the frame lemma of its operation;
* **`session_bounded`** — hence every state of every session has it.
-/

namespace Myna

namespace Loop

variable {K : Type*}

/-- A decode call over at most `cap` samples, read from `stream` at the offset it is given. -/
def IsSlice (stream : Bytes) (cap : ℕ) (call : DecodeCall) : Prop :=
  call.samples.length ≤ cap ∧ ∃ first stop : ℕ,
    call.samples = ((RollingWindow.toFloat stream).take stop).drop first ∧
      call.offset = secondsAt first

/-- The window invariant of a session over `stream`. -/
structure Bounded (env : Env K) (stream : Bytes) (s : LoopState K) : Prop where
  cap_eq : s.window.cap = env.config.window.capSamples
  overlap_eq : s.window.overlap = env.config.window.overlapSamples
  tracks : s.window.Tracks stream
  stream_eq : stream = stream.take (2 * s.window.received) ++ (s.pending ++ s.audio.flatten)
  idle : s.pc = .chunk ∨ s.pc = .tick ∨ s.pc = .tail → s.pending = []
  decodes : ∀ call ∈ s.display.decodes, IsSlice stream env.config.window.capSamples call

theorem init_bounded (env : Env K) (strategy : Strategy K) (audio : List Bytes) :
    Bounded env audio.flatten (LoopState.init env strategy audio) where
  cap_eq := rfl
  overlap_eq := rfl
  tracks := RollingWindow.new_tracks _ _
  stream_eq := by simp [LoopState.init, RollingWindow.new]
  idle := fun _ => rfl
  decodes := by simp [LoopState.init]

/-! ## Slices -/

/-- A region read from a window that tracks the stream is a slice of it. -/
theorem isSlice_samples {w : RollingWindow} {stream : Bytes} (h : w.Tracks stream)
    (kind : DecodeKind) {first stop : ℕ} (hf : w.retainedStart ≤ first) (hs : stop ≤ w.received) :
    IsSlice stream w.cap ⟨kind, w.samples (some first) (some stop), secondsAt first⟩ := by
  refine ⟨?_, first, stop, h.samples_eq hf hs, rfl⟩
  have hret := h.retained_le
  unfold RollingWindow.retained at hret
  rw [h.length_samples hf hs]
  omega

theorem isSlice_regionCall {w : RollingWindow} {stream : Bytes} (h : w.Tracks stream)
    (kind : DecodeKind) : IsSlice stream w.cap (regionCall kind w none) := by
  unfold regionCall
  rw [RollingWindow.samples_whole]
  exact isSlice_samples h kind le_rfl le_rfl

theorem isSlice_regionCall_stop {w : RollingWindow} {stream : Bytes} (h : w.Tracks stream)
    (kind : DecodeKind) {stop : ℕ} (hs : stop ≤ w.received) :
    IsSlice stream w.cap (regionCall kind w (some stop)) := by
  unfold regionCall
  rw [RollingWindow.samples_stop]
  exact isSlice_samples h kind le_rfl hs

/-- The last `tail` seconds of the window start inside it, and past its end where `tail` is
negative. -/
theorem isSlice_previewCall {env : Env K} {w : RollingWindow} {stream : Bytes}
    (h : w.Tracks stream) : IsSlice stream w.cap (previewCall env w) := by
  unfold previewCall
  split
  · exact isSlice_regionCall h .preview
  · next tail _ =>
    split_ifs with htail
    · have hrs := h.retainedStart_le_received
      have hmono : toSamples tail ≤ toSamples (secondsAt w.retained) := toSamples_mono htail.2.le
      rw [toSamples_secondsAt] at hmono
      obtain ⟨first, hfirst⟩ : ∃ first : ℕ, (w.received : ℤ) - toSamples tail = first := by
        refine ⟨((w.received : ℤ) - toSamples tail).toNat, ?_⟩
        unfold RollingWindow.retained at hmono
        omega
      rw [hfirst, RollingWindow.samples_first]
      have hle : w.retainedStart ≤ first := by
        unfold RollingWindow.retained at hmono
        omega
      simpa [secondsAt] using isSlice_samples h .preview hle (le_refl w.received)
    · exact isSlice_regionCall h .preview

/-! ## The invariant -/

/-- What a step without a `fill` may do and keep the invariant: retire, and decode slices. -/
theorem Bounded.of_eq {env : Env K} {stream : Bytes} {s t : LoopState K} (h : Bounded env stream s)
    (hw : t.window = s.window ∨ ∃ through keep, t.window = s.window.retire through keep)
    (hp : t.pending = s.pending) (ha : t.audio = s.audio)
    (hidle : t.pc = .chunk ∨ t.pc = .tick ∨ t.pc = .tail → s.pending = [])
    (hd : t.display.decodes = s.display.decodes ∨ ∃ call,
      t.display.decodes = s.display.decodes ++ [call] ∧ IsSlice stream s.window.cap call) :
    Bounded env stream t := by
  have hdec : ∀ call ∈ t.display.decodes, IsSlice stream env.config.window.capSamples call := by
    rcases hd with hd | ⟨call, hd, hslice⟩
    · rw [hd]
      exact h.decodes
    · rw [hd]
      intro c hc
      rcases List.mem_append.mp hc with hc | hc
      · exact h.decodes c hc
      · rw [List.mem_singleton.mp hc, ← h.cap_eq]
        exact hslice
  rcases hw with hw | ⟨through, keep, hw⟩
  · exact ⟨by rw [hw, h.cap_eq], by rw [hw, h.overlap_eq], by rw [hw]; exact h.tracks,
      by rw [hw, hp, ha]; exact h.stream_eq, fun hpc => by rw [hp]; exact hidle hpc, hdec⟩
  · exact ⟨by rw [hw]; exact h.cap_eq, by rw [hw]; exact h.overlap_eq,
      by rw [hw]; exact h.tracks.retire _ _, by rw [hw, hp, ha]; exact h.stream_eq,
      fun hpc => by rw [hp]; exact hidle hpc, hdec⟩

/-- The one step that appends: `fill` takes the next bytes of the stream. -/
theorem Bounded.filled {env : Env K} {stream : Bytes} {s : LoopState K} (h : Bounded env stream s) :
    Bounded env stream { s with
      pc := afterFill s.strategy
      window := s.window.filled s.pending
      pending := s.pending.drop (s.window.room s.pending * 2) } := by
  refine ⟨h.cap_eq, h.overlap_eq, h.tracks.filled h.stream_eq, ?_, ?_, h.decodes⟩
  · dsimp only
    rw [h.tracks.take_filled h.stream_eq,
      List.append_assoc, ← List.append_assoc (List.take _ s.pending),
      List.take_append_drop]
    exact h.stream_eq
  · cases s.strategy <;> simp [afterFill]

variable [Field K] [LinearOrder K]

theorem Bounded.observe {env : Env K} {stream : Bytes} {s : LoopState K} (h : Bounded env stream s)
    (sc : SilenceCut K) (hpc : s.pc = .observe) : Bounded env stream (observeStep env s sc) := by
  rcases hj : judge env s sc with ⟨asked, sc', acts⟩
  cases asked with
  | none =>
    rw [observeStep_none hj]
    exact h.of_eq (Or.inl rfl) rfl rfl (by simp) (Or.inl rfl)
  | some cut =>
    obtain ⟨p, hp, hat, -⟩ := judge_some h.tracks hj
    rw [observeStep_some hj]
    split_ifs
    · obtain ⟨tr, d, htake, hd⟩ := takeCut_frame env (judged s sc' acts [.cut cut true]) cut hat
      rw [htake]
      exact h.of_eq (Or.inr ⟨_, _, rfl⟩) rfl rfl (by simp [judged, hpc])
        (Or.inr ⟨_, hd, isSlice_regionCall_stop h.tracks .commit hp⟩)
    · exact h.of_eq (Or.inl rfl) rfl rfl (by simp) (Or.inl rfl)

omit [LinearOrder K] in
theorem Bounded.force {env : Env K} {stream : Bytes} {s : LoopState K} (h : Bounded env stream s) :
    Bounded env stream { forceBoundary env s with pc := .fill, cutTaken := true } := by
  obtain ⟨st, tr, hyp, log, d, stop, hforce, hd, hstop⟩ := forceBoundary_frame env s
  rw [hforce]
  refine h.of_eq (Or.inr ⟨_, _, rfl⟩) rfl rfl (by simp) (Or.inr ⟨_, hd, ?_⟩)
  rcases hstop with rfl | rfl
  · exact isSlice_regionCall h.tracks .commit
  · exact isSlice_regionCall_stop h.tracks .commit le_rfl

theorem Bounded.tick {env : Env K} {stream : Bytes} {s : LoopState K} (h : Bounded env stream s)
    (hpc : s.pc = .tick) : Bounded env stream (step env s) := by
  have hidle := h.idle (Or.inr (Or.inl hpc))
  unfold step
  rw [hpc]
  dsimp only
  split
  · have heq := LoopState.eq_of_core (silenceTick_core env s)
    rw [heq]
    refine h.of_eq (Or.inl rfl) rfl rfl (fun _ => hidle) ?_
    rcases silenceTick_decodes env s with hd | hd
    · exact Or.inl hd
    · exact Or.inr ⟨_, hd, isSlice_previewCall h.tracks⟩
  · rcases agreementTick_frame env s with htick | ⟨tr, w, hyp, d, htick, hw, hd⟩
    · rw [htick]
      exact h.of_eq (Or.inl rfl) rfl rfl (fun _ => hidle) (Or.inl rfl)
    · rw [htick]
      refine h.of_eq ?_ rfl rfl (fun _ => hidle)
        (Or.inr ⟨_, hd, isSlice_regionCall h.tracks .tick⟩)
      rcases hw with hw | ⟨through, hw⟩
      · exact Or.inl hw
      · exact Or.inr ⟨through, true, hw⟩

/-- **Every step keeps the window bounded and on the stream.** -/
theorem step_bounded (env : Env K) (stream : Bytes) :
    StepSystem.Keeps (step env) (Bounded env stream) := by
  intro s h
  cases hpc : s.pc with
  | chunk =>
    have hidle := h.idle (Or.inl hpc)
    unfold step
    rw [hpc]
    dsimp only
    split
    · exact h.of_eq (Or.inl rfl) rfl rfl (fun _ => hidle) (Or.inl rfl)
    · next data audio haudio =>
      refine ⟨h.cap_eq, h.overlap_eq, h.tracks, ?_, by simp, h.decodes⟩
      have hstream := h.stream_eq
      rw [hidle, haudio] at hstream
      exact hstream
  | fill =>
    rcases step_fill env hpc with ⟨-, hstep⟩ | ⟨-, hstep⟩
    · rw [hstep]
      exact h.of_eq (Or.inl rfl) rfl rfl (by simp) (Or.inl rfl)
    · rw [hstep]
      exact h.filled
  | observe =>
    unfold step
    rw [hpc]
    dsimp only
    split
    · exact h.observe _ hpc
    · exact h.of_eq (Or.inl rfl) rfl rfl (by simp) (Or.inl rfl)
  | boundary =>
    unfold step
    rw [hpc]
    dsimp only
    split_ifs with hp
    · exact h.of_eq (Or.inl rfl) rfl rfl (fun _ => hp) (Or.inl rfl)
    · exact h.force
  | tick => exact h.tick hpc
  | tail =>
    unfold step
    rw [hpc]
    obtain ⟨tr, d, htail, hd⟩ := resolveTail_frame env s
    dsimp only
    rw [htail]
    refine h.of_eq (Or.inl rfl) rfl rfl (by simp) ?_
    rw [hd]
    split_ifs
    · exact Or.inr ⟨_, rfl, isSlice_regionCall h.tracks .commit⟩
    · exact Or.inl rfl
  | done =>
    rw [step, hpc]
    exact h
  | raised =>
    rw [step, hpc]
    exact h

theorem session_inv (env : Env K) (strategy : Strategy K) (audio : List Bytes) (n : ℕ) :
    Bounded env audio.flatten (session env strategy audio n) :=
  (step_bounded env audio.flatten).run (init_bounded env strategy audio) n

/-- **The bounded window.** In every state of every session the three positions are ordered, the
buffer is exactly the received bytes from `retainedStart` on, the retained samples fit under the
cap, and every decode so far was given at most the cap's samples, cut from the stream at the
absolute offset it was told. -/
theorem session_bounded (env : Env K) (strategy : Strategy K) (audio : List Bytes) (n : ℕ) :
    let w := (session env strategy audio n).window
    (w.retainedStart ≤ w.processedThrough ∧ w.processedThrough ≤ w.received) ∧
      w.buf = (audio.flatten.take (2 * w.received)).drop (2 * w.retainedStart) ∧
      2 * w.received ≤ audio.flatten.length ∧
      w.retained ≤ env.config.window.capSamples ∧
      ∀ call ∈ (session env strategy audio n).display.decodes,
        call.samples.length ≤ env.config.window.capSamples ∧
        ∃ first stop : ℕ,
          call.samples = ((RollingWindow.toFloat audio.flatten).take stop).drop first ∧
            call.offset = secondsAt first := by
  have h := session_inv env strategy audio n
  exact ⟨⟨h.tracks.retainedStart_le, h.tracks.processedThrough_le⟩, h.tracks.buf_eq,
    h.tracks.received_le, h.cap_eq ▸ h.tracks.retained_le, h.decodes⟩

end Loop

end Myna
