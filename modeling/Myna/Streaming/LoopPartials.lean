import Myna.Streaming.LoopTranscript

/-!
# Myna — partials do not interfere with commits

Two sessions of a chunked strategy that differ in the settings of their partial ticks, and in what
those ticks cost, run in lockstep on everything but their display: `LoopState.core` is the same in
every state of the two runs.

* **`Env.withPartials`** — the same session with other partial settings;
* **`Blind`** — operations that do not look at the display, and `Blind.congr` for using one;
* **`step_blind`** — the two sessions' steps, from states with the same core;
* **`partials_do_not_interfere`** — whole runs.
-/

namespace Myna

variable {K : Type*}

/-- The session with other settings for its ticks and another cost for each of them. -/
def Env.withPartials (env : Env K) (cadence : Seconds) (partials : PartialSettings)
    (wall : ℕ → ℚ) : Env K :=
  { env with
    config := { env.config with cadence := cadence, partials := partials }
    wall := wall }

namespace Loop

/-- `f`, on a state with any display, leaves the core that `g` leaves. -/
def Blind (f g : LoopState K → LoopState K) : Prop :=
  ∀ s d, (f { s with display := d }).core = (g s).core

/-- Blind operations take states with the same core to states with the same core. -/
theorem Blind.congr {f g : LoopState K → LoopState K} (h : Blind f g) {s t : LoopState K}
    (hst : s.core = t.core) : (f s).core = (g t).core := by
  rw [LoopState.eq_of_core hst]
  exact h t s.display

/-! ## The operations of the two sessions -/

section

variable {env env' : Env K} {cadence : Seconds} {partials : PartialSettings} {wall : ℕ → ℚ}

theorem commit_blind (words : List Word) :
    Blind (fun s => (commit (env.withPartials cadence partials wall) s words).2)
      (fun s => (commit env s words).2) := by
  intro s d
  have hfresh : freshText (env.withPartials cadence partials wall) { s with display := d } words
      = freshText env s words := rfl
  simp only [commit, hfresh]
  split_ifs <;> rfl

theorem commitDecision_blind (decision : Option CommitDecision) :
    Blind (fun s => (commitDecision (env.withPartials cadence partials wall) s decision).2)
      (fun s => (commitDecision env s decision).2) := by
  intro s d
  cases decision with
  | none => rfl
  | some dec =>
    have hcover : Blind (K := K)
        (fun s => coverTo s (max s.transcript.committedThrough dec.commitEnd))
        (fun s => coverTo s (max s.transcript.committedThrough dec.commitEnd)) := fun _ _ => rfl
    exact hcover.congr (commit_blind dec.commitWords s d)

theorem commitCut_blind (hyp : Hypothesis) (cut : ℕ) (forced keepOverlap : Bool) :
    Blind (fun s => commitCut (env.withPartials cadence partials wall) s hyp cut forced keepOverlap)
      (fun s => commitCut env s hyp cut forced keepOverlap) := by
  intro s d
  cases keepOverlap with
  | true => exact commitDecision_blind _ s d
  | false =>
    have hcover : Blind (K := K)
        (fun s => coverTo s (max s.transcript.committedThrough (secondsAt cut)))
        (fun s => coverTo s (max s.transcript.committedThrough (secondsAt cut))) := fun _ _ => rfl
    exact hcover.congr (commit_blind hyp.words s d)

theorem cutRegion_blind (hpure : env.PureDecoder) (cut : ℕ) (forced keepOverlap : Bool) :
    Blind (fun s => cutRegion (env.withPartials cadence partials wall) s cut forced keepOverlap)
      (fun s => cutRegion env s cut forced keepOverlap) := by
  intro s d
  have hhyp : (timedDecode (env.withPartials cadence partials wall) { s with display := d } .commit
      (s.window.samples none (some cut)) s.window.start).1
      = (timedDecode env s .commit (s.window.samples none (some cut)) s.window.start).1 :=
    hpure _ _ _ _
  have hretire : Blind (K := K)
      (fun s => { s with
        window := s.window.retire cut keepOverlap
        display := { s.display with lastUnstable := [], lastPartialWall := 0 } })
      (fun s => { s with
        window := s.window.retire cut keepOverlap
        display := { s.display with lastUnstable := [], lastPartialWall := 0 } }) := fun _ _ => rfl
  unfold cutRegion
  dsimp only
  rw [hhyp]
  exact hretire.congr ((commitCut_blind _ cut forced keepOverlap).congr rfl)

theorem takeCut_blind (hpure : env.PureDecoder) (cut : Cut) :
    Blind (fun s => takeCut (env.withPartials cadence partials wall) s cut)
      (fun s => takeCut env s cut) := by
  intro s d
  have hmark : Blind (K := K) (fun s => { s with cutTaken := true })
      (fun s => { s with cutTaken := true }) := fun _ _ => rfl
  exact hmark.congr (cutRegion_blind hpure _ cut.forced (keepsOverlap env cut) s d)

theorem resolveTail_blind (hpure : env.PureDecoder) :
    Blind (resolveTail (env.withPartials cadence partials wall)) (resolveTail env) := by
  intro s d
  have hhyp : (timedDecode (env.withPartials cadence partials wall) { s with display := d } .commit
      (s.window.samples none none) s.window.start).1
      = (timedDecode env s .commit (s.window.samples none none) s.window.start).1 :=
    hpure _ _ _ _
  have hfinish : Blind (K := K)
      (fun s => { s with pc := .done, result := some s.transcript.committed.flatten })
      (fun s => { s with pc := .done, result := some s.transcript.committed.flatten }) :=
    fun _ _ => rfl
  have htail : decodesTail (env.withPartials cadence partials wall) { s with display := d }
      = decodesTail env s := rfl
  unfold resolveTail
  dsimp only
  rw [htail, hhyp]
  refine hfinish.congr ?_
  split_ifs
  · exact (commit_blind _).congr rfl
  · rfl

/-! ## The machine -/

variable [Field K] [LinearOrder K]

theorem observeStep_blind (hpure : env.PureDecoder) (sc : SilenceCut K) :
    Blind (fun s => observeStep (env.withPartials cadence partials wall) s sc)
      (fun s => observeStep env s sc) := by
  intro s d
  have hjudge : judge (env.withPartials cadence partials wall) { s with display := d } sc
      = judge env s sc := rfl
  rcases hj : judge env s sc with ⟨asked, sc', acts⟩
  cases asked with
  | none =>
    dsimp only
    rw [observeStep_none (hjudge.trans hj), observeStep_none hj]
    rfl
  | some cut =>
    have htakes : takesCut { s with display := d } cut = takesCut s cut := rfl
    dsimp only
    rw [observeStep_some (hjudge.trans hj), observeStep_some hj, htakes]
    split_ifs
    · exact takeCut_blind hpure cut (judged s sc' acts [.cut cut true]) d
    · rfl

/-- **A step of a chunked session does not look at the display**, nor at the settings of the
partial ticks, beyond its own display. -/
theorem step_blind (hpure : env.PureDecoder) {s : LoopState K} {sc : SilenceCut K}
    (hs : s.strategy = .silenceCut sc) (d : Display) :
    (step (env.withPartials cadence partials wall) { s with display := d }).core
      = (step env s).core := by
  obtain ⟨t, ht⟩ : ∃ t : LoopState K, t = { s with display := d } := ⟨_, rfl⟩
  rw [← ht]
  have hpc' : t.pc = s.pc := by rw [ht]
  cases hpc : s.pc with
  | chunk => cases haudio : s.audio <;> simp only [step, hpc, haudio, ht] <;> rfl
  | fill => cases hfill : s.window.fill s.pending <;> simp only [step, hpc, hfill, ht] <;> rfl
  | observe =>
    rw [step_observe _ hpc hs, step_observe _ (s := t) (hpc'.trans hpc) (by rw [ht]; exact hs), ht]
    exact observeStep_blind hpure sc s d
  | boundary =>
    by_cases hp : s.pending = []
    · rw [step_boundary_nil _ hpc hp,
        step_boundary_nil _ (s := t) (hpc'.trans hpc) (by rw [ht]; exact hp), ht]
      rfl
    · have hnext : Blind (K := K) (fun s => { s with pc := .fill, cutTaken := true })
          (fun s => { s with pc := .fill, cutTaken := true }) := fun _ _ => rfl
      rw [step_boundary _ hpc hp, step_boundary _ (s := t) (hpc'.trans hpc)
        (by rw [ht]; exact hp), ht]
      refine hnext.congr ?_
      simp only [forceBoundary, hs]
      exact (cutRegion_blind hpure _ true true).congr rfl
  | tick =>
    have hnext : Blind (K := K) (fun s => { s with pc := .chunk })
        (fun s => { s with pc := .chunk }) := fun _ _ => rfl
    rw [step_tick_silence _ hpc hs,
      step_tick_silence _ (s := t) (hpc'.trans hpc) (by rw [ht]; exact hs), ht]
    exact hnext.congr ((silenceTick_core _ _).trans (silenceTick_core env s).symm)
  | tail =>
    rw [step_tail _ hpc, step_tail _ (s := t) (hpc'.trans hpc), ht]
    exact resolveTail_blind hpure s d
  | done =>
    rw [step_done _ hpc, step_done _ (s := t) (hpc'.trans hpc), ht]
    rfl
  | raised =>
    rw [step_raised _ hpc, step_raised _ (s := t) (hpc'.trans hpc), ht]
    rfl

/-! ## Sessions -/

variable (env cadence partials wall) in
/-- **The two sessions in lockstep**: their states have the same core after any number of steps. -/
theorem session_core (hpure : env.PureDecoder) (sc : SilenceCut K) (audio : List Bytes) (n : ℕ) :
    (session (env.withPartials cadence partials wall) (.silenceCut sc) audio n).core
      = (session env (.silenceCut sc) audio n).core := by
  have hlock := StepSystem.lockstep (f := step (env.withPartials cadence partials wall))
    (g := step env) (R := fun t s => t.core = s.core ∧ ∃ sc, s.strategy = .silenceCut sc)
    (s := LoopState.init (env.withPartials cadence partials wall) (.silenceCut sc) audio)
    (t := LoopState.init env (.silenceCut sc) audio) ?_ ⟨rfl, sc, rfl⟩ n
  · exact hlock.1
  · rintro t s ⟨hcore, sc', hs⟩
    rw [LoopState.eq_of_core hcore]
    exact ⟨step_blind hpure hs t.display, step_chunked env s ⟨sc', hs⟩⟩

/-- **Partials do not interfere with commits.** Two sessions of a chunked strategy over the same
audio, with a decoder that is a function of its region and offset, that differ in the settings of
the partial ticks and in what those cost: after any number of steps they are at the same point,
with the same commits, the same committed events and the same result. -/
theorem partials_do_not_interfere (hpure : env.PureDecoder) (sc : SilenceCut K)
    (audio : List Bytes) (n : ℕ) :
    let s := session env (.silenceCut sc) audio n
    let t := session (env.withPartials cadence partials wall) (.silenceCut sc) audio n
    t.pc = s.pc ∧ t.transcript = s.transcript ∧ t.result = s.result ∧
      committedFinals t.display.events = committedFinals s.display.events := by
  intro s t
  have heq := LoopState.eq_of_core (session_core env cadence partials wall hpure sc audio n)
  have htr : t.transcript = s.transcript := by rw [show t = _ from heq]
  refine ⟨by rw [show t = _ from heq], htr, by rw [show t = _ from heq], ?_⟩
  rw [(session_spoken env (.silenceCut sc) audio n).finals,
    (session_spoken (env.withPartials cadence partials wall) (.silenceCut sc) audio n).finals]
  show (if env.config.onCommit then _ else t.transcript.committed.zipIdx.map _) = _
  rw [htr]

end

/-- A session with partials on, whose decoder hears one word in every region. -/
def oneWordEnv : Env ℚ where
  config :=
    { window := ⟨65, 1, by norm_num, by norm_num, by norm_num⟩
      partials := { cadence := some 1, tail := some 8, budget := some (1 / 4) } }
  decode := fun _ samples offset =>
    ⟨[⟨['w', 'o', 'r', 'd'], offset, offset + secondsAt samples.length⟩]⟩
  wall := fun n => n
  unicode := .ascii
  numerics := ⟨31 / 32, id⟩

/-- Its transcript with partials off. -/
theorem partials_do_not_interfere_off :
    let s := session oneWordEnv (.silenceCut .new) [List.replicate 32000 0] 12
    let t := session (oneWordEnv.withPartials 2 {} (fun _ => 0)) (.silenceCut .new)
      [List.replicate 32000 0] 12
    t.pc = s.pc ∧ t.transcript = s.transcript ∧ t.result = s.result ∧
      committedFinals t.display.events = committedFinals s.display.events :=
  partials_do_not_interfere (fun _ _ _ _ => rfl) .new [List.replicate 32000 0] 12

end Loop

end Myna
