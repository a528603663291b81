import Myna.Streaming.LoopPass
import Myna.Streaming.LoopProgress
import Myna.Streaming.Settled

/-!
# Myna — SilenceCut loses and repeats no word (I5)

A chunked session over a timeline, with the overlap kept and a decoder that cuts its words off at
the end of the region. Every cut settles the words it commits (`cutRegion_settled`), so that in
every state of the session the committed words are the first words of the timeline and the window
holds the others. What is left for the end of the audio is decoded there, unless the last cut lies
on the very last sample.

* **`Favourable`** — what the words, the settings and the pause cuts have to be like;
* **`HeldAtEnd`** — the last cut lies on the last sample and holds a word back;
* **`silenceCut_exactlyOnce_iff`** — the words committed are those that start in the audio, each
  once and in order, exactly in the sessions that do not end so.
-/

namespace Myna

namespace Loop

variable {K : Type*} [Field K] [LinearOrder K]

/-- A word that a pause cut splits although it began before the audio the cut holds back is found
again by its text. -/
def Survives (env : Env K) (tl : Timeline) (cut : Cut) : Prop :=
  ∀ i x, tl.words[i]? = some x →
    cut.at_ - secondsAt env.config.window.overlapSamples ≤ x.start →
    x.start < cut.at_ - TAIL_GUARD_S → cut.at_ < x.stop → tl.Recognised env.unicode i

/-- The sessions the exactly-once property is about: whole samples, the overlap kept, an utterance
of the minimum length; words that the text dedupe tells apart, each with more than a millisecond
of received audio; an overlap that holds what a pause cut holds back; and pause cuts that long words
survive. -/
structure Favourable (env : Env K) (tl : Timeline) (strategy : Strategy K) (audio : List Bytes) :
    Prop where
  wholeSamples : ∀ data ∈ audio, data.length % 2 = 0
  overlapKept : env.config.silenceCutOverlap = true
  overlap_lt_cap : env.config.window.overlapSamples < env.config.window.capSamples
  minUtterance_le : env.config.minUtterance ≤ secondsAt (audio.flatten.length / 2)
  guard_le_overlap : toSamples TAIL_GUARD_S ≤ env.config.window.overlapSamples
  told : tl.ToldApart env.unicode
  audible : tl.Audible env.unicode
  long : ∀ w ∈ tl.words, w.start < secondsAt (audio.flatten.length / 2) →
    w.start + 1 / 1000 < min w.stop (secondsAt (audio.flatten.length / 2))
  survives : ∀ n cut, .cut cut true ∈ (session env strategy audio n).vadLog →
    cut.forced = false → Survives env tl cut

theorem toSamples_guard : toSamples TAIL_GUARD_S = 8000 := by decide +kernel

theorem secondsAt_guard : secondsAt 8000 = 1 / 2 := by norm_num [secondsAt, RATE]

omit [Field K] [LinearOrder K] in
/-- **A cut settles the words it commits.** -/
theorem cutRegion_settled {env : Env K} {tl : Timeline} (hhears : env.Hears tl .clipped)
    (htold : tl.ToldApart env.unicode) (haudible : tl.Audible env.unicode) {s : LoopState K} {c : ℕ}
    (h : Settled env.unicode tl s.transcript s.window c) {stream : Bytes}
      (hb : Bounded env stream s)
    (hguard : toSamples TAIL_GUARD_S ≤ env.config.window.overlapSamples) {cut : ℕ} {forced : Bool}
    (hpt : s.window.processedThrough ≤ cut) (hcut : cut ≤ s.window.received)
    (hlong : ∀ w ∈ tl.words, w.start < secondsAt cut → w.start + 1 / 1000 < w.stop)
    (hsurvives : forced = false → ∀ silent, Survives env tl ⟨secondsAt cut, false, silent⟩) :
    ∃ c', Settled env.unicode tl (cutRegion env s cut forced true).transcript
      (s.window.retire cut) c' := by
  rw [toSamples_guard] at hguard
  have hov := hb.overlap_eq
  have hrs := hb.tracks.retainedStart_le.trans hpt
  set held := if forced then s.window.overlap else (toSamples TAIL_GUARD_S).toNat with hheld
  have hguard_held : 8000 ≤ held ∧ held ≤ s.window.overlap := by
    rw [hheld, toSamples_guard]
    split_ifs <;> omega
  have hwords := words_region hhears hb.tracks hrs hcut s.display.decodes.length
  -- a word the cut commits began before the audio it holds back, or ended clear of the cut
  have hfree : ∀ i (x : Word), c ≤ i → tl.words[i]? = some x →
      heldBack (secondsAt cut) (secondsAt (max s.window.retainedStart (cut - held)))
        (Ending.clipped.report (secondsAt cut) x) = false →
      x.start < secondsAt (cut - held) ∨
        min x.stop (secondsAt cut) ≤ secondsAt cut - TAIL_GUARD_S := by
    intro i x hci hx hfree
    by_contra hcon
    push Not at hcon
    have hwindow := Timeline.before_le_iff.mp h.kept i x hci hx
    have hheld : heldBack (secondsAt cut) (secondsAt (max s.window.retainedStart (cut - held)))
        (Ending.clipped.report (secondsAt cut) x) = true := by
      refine heldBack_iff.mpr ⟨?_, hcon.2⟩
      rcases max_choice s.window.retainedStart (cut - held) with hmax | hmax <;> rw [hmax]
      · exact hwindow
      · exact hcon.1
    rw [hheld] at hfree
    cases hfree
  -- the first kind began at least the guard before the cut
  have hearly : ∀ (i : ℕ) (x : Word), tl.words[i]? = some x → x.start < secondsAt (cut - held) →
      x.start < secondsAt cut - secondsAt held := by
    intro i x hx hlt
    have hnonneg := tl.nonneg x (List.mem_of_getElem? hx)
    rcases le_or_gt held cut with hle | hgt
    · rwa [secondsAt_sub hle] at hlt
    · rw [Nat.sub_eq_zero_of_le hgt.le, secondsAt_zero] at hlt
      exact absurd hlt (not_lt.mpr hnonneg)
  have hhalf : 1 / 2 ≤ secondsAt held := by
    rw [← secondsAt_guard]
    exact secondsAt_le_iff.mpr hguard_held.1
  refine Settled.boundary (s := (timedDecode env s .commit
      (s.window.samples none (some (cut : ℤ))) s.window.start).2) h htold haudible
    (env.decode s.display.decodes.length (s.window.samples none (some (cut : ℤ)))
      s.window.start) cut
    (secondsAt (max s.window.retainedStart (cut - held))) hrs hpt hcut hwords ?_ ?_ ?_ ?_
  · refine le_max_of_le_left (secondsAt_le_iff.mpr ?_)
    show cut - s.window.overlap ≤ _
    omega
  · intro i x hci hin hx hnot
    have hlt := hlong x (List.mem_of_getElem? hx) ((Timeline.lt_before_iff hx _).mp hin)
    show x.start + 1 / 1000 < min x.stop (secondsAt cut)
    refine lt_min hlt ?_
    rcases hfree i x hci hx hnot with hbegan | hended
    · have := hearly i x hx hbegan
      linarith
    · rw [TAIL_GUARD_S] at hended
      have hstop : x.stop ≤ secondsAt cut - 1 / 2 := by
        rcases min_le_iff.mp hended with hle | hle
        · exact hle
        · linarith
      linarith
  · intro i x hci hin hx hnot hkept
    show x.stop ≤ min x.stop (secondsAt cut) + 1 / 1000 ∨ _
    rcases le_or_gt x.stop (secondsAt cut) with hle | hgt
    · rw [min_eq_left hle]
      exact Or.inl (by linarith)
    · -- the word is split by the cut
      right
      have hbegan : x.start < secondsAt (cut - held) := by
        rcases hfree i x hci hx hnot with hbegan | hended
        · exact hbegan
        · rw [min_eq_right hgt.le, TAIL_GUARD_S] at hended
          linarith
      cases forced with
      | true =>
        -- a forced cut keeps all it holds back
        exact absurd hbegan (not_lt.mpr hkept)
      | false =>
        refine hsurvives rfl false i x hx ?_ ?_ hgt
        · refine le_trans ?_ hkept
          show secondsAt cut - secondsAt env.config.window.overlapSamples
            ≤ secondsAt (cut - s.window.overlap)
          rw [hov]
          exact sub_secondsAt_le _ _
        · show x.start < secondsAt cut - TAIL_GUARD_S
          have := hearly i x hx hbegan
          rw [TAIL_GUARD_S]
          linarith
  · intro hzero
    exact absurd (show s.window.overlap = 0 from hzero) (by omega)

/-! ## Along a session -/

/-- The first words are settled, and a cut has left overlap behind. -/
structure OnCourse (env : Env K) (tl : Timeline) (s : LoopState K) : Prop where
  settled : ∃ c, Settled env.unicode tl s.transcript s.window c
  ahead : s.window.processedThrough = 0 ∨ s.window.retainedStart < s.window.processedThrough

omit [Field K] [LinearOrder K] in
/-- A step that commits nothing and retires nothing. -/
theorem OnCourse.of_eq {env : Env K} {tl : Timeline} {s t : LoopState K} (h : OnCourse env tl s)
    (htr : t.transcript = s.transcript) (hrs : t.window.retainedStart = s.window.retainedStart)
    (hpt : t.window.processedThrough = s.window.processedThrough)
    (hrec : s.window.received ≤ t.window.received) : OnCourse env tl t where
  settled := by
    obtain ⟨c, hc⟩ := h.settled
    rw [htr]
    exact ⟨c, hc.receive hrs hpt hrec⟩
  ahead := by
    rw [hrs, hpt]
    exact h.ahead

variable {env : Env K} {tl : Timeline} {strategy : Strategy K} {audio : List Bytes}

omit [Field K] [LinearOrder K] in
/-- A cut that keeps its overlap. -/
theorem OnCourse.cutRegion {s : LoopState K} (h : OnCourse env tl s)
    (hhears : env.Hears tl .clipped)
    (htold : tl.ToldApart env.unicode) (haudible : tl.Audible env.unicode) {stream : Bytes}
    (hb : Bounded env stream s)
    (hguard : toSamples TAIL_GUARD_S ≤ env.config.window.overlapSamples) {cut : ℕ}
    (hpt : s.window.processedThrough ≤ cut) (hcut : cut ≤ s.window.received)
    (hlong : ∀ w ∈ tl.words, w.start < secondsAt cut → w.start + 1 / 1000 < w.stop) (forced : Bool)
    (hsurvives : forced = false → ∀ silent, Survives env tl ⟨secondsAt cut, false, silent⟩) :
    OnCourse env tl (Loop.cutRegion env s cut forced true) := by
  obtain ⟨c, hc⟩ := h.settled
  obtain ⟨c', hc'⟩ := cutRegion_settled hhears htold haudible hc hb hguard hpt hcut hlong hsurvives
  have hrs := hb.tracks.retainedStart_le
  have hov := hb.overlap_eq
  have hahead := h.ahead
  obtain ⟨tr, d, hframe, -⟩ := cutRegion_frame env s cut forced true
  rw [toSamples_guard] at hguard
  refine ⟨⟨c', ?_⟩, ?_⟩
  · rw [hframe] at hc' ⊢
    exact hc'
  · rw [hframe]
    show (s.window.retire cut).processedThrough = 0 ∨
      (s.window.retire cut).retainedStart < (s.window.retire cut).processedThrough
    rw [RollingWindow.retire_retainedStart, RollingWindow.retire_processedThrough_eq hpt hcut,
      if_pos rfl]
    omega

/-- **Every step before the tail stays on course.** -/
theorem step_onCourse {s : LoopState K} {sc : SilenceCut K} (h : OnCourse env tl s)
    (hhears : env.Hears tl .clipped) (hf : Favourable env tl strategy audio)
    (hb : Bounded env audio.flatten s) (hs : s.strategy = .silenceCut sc) (hpc : s.pc ≠ .tail)
    (hsurvives : ∀ cut, .cut cut true ∈ (step env s).vadLog → cut.forced = false →
      Survives env tl cut) : OnCourse env tl (step env s) := by
  have hlong : ∀ cut ≤ s.window.received, ∀ w ∈ tl.words, w.start < secondsAt cut →
      w.start + 1 / 1000 < w.stop := by
    intro cut hcut w hw hlt
    have htotal : cut ≤ audio.flatten.length / 2 := by
      have hrec := hb.tracks.received_le
      omega
    exact (hf.long w hw (hlt.trans_le (secondsAt_le_iff.mpr htotal))).trans_le (min_le_left _ _)
  cases hpc' : s.pc with
  | chunk =>
    refine h.of_eq ?_ ?_ ?_ ?_ <;> cases haudio : s.audio <;> simp [step, hpc', haudio]
  | fill =>
    rcases step_fill env hpc' with ⟨-, hstep⟩ | ⟨-, hstep⟩
    · rw [hstep]
      exact h.of_eq rfl rfl rfl le_rfl
    · rw [hstep]
      exact h.of_eq rfl rfl rfl (Nat.le_add_right _ _)
  | observe =>
    rw [step_observe env hpc' hs] at hsurvives ⊢
    rcases hj : judge env s sc with ⟨asked, sc', acts⟩
    cases asked with
    | none =>
      rw [observeStep_none hj]
      exact h.of_eq rfl rfl rfl le_rfl
    | some cut =>
      obtain ⟨p, hp, hat, -⟩ := judge_some hb.tracks hj
      rw [observeStep_some hj] at hsurvives ⊢
      by_cases htakes : takesCut s cut = true
      · rw [if_pos htakes] at hsurvives ⊢
        have hlt := processedThrough_lt_of_takesCut hat htakes
        have hkeep : keepsOverlap env cut = true := by
          rw [keepsOverlap, hf.overlapKept, Bool.or_true, Bool.true_or]
        obtain ⟨tr, d, htake, -⟩ := takeCut_frame env (judged s sc' acts [.cut cut true]) cut hat
        have hcut := OnCourse.cutRegion (s := judged s sc' acts [.cut cut true])
          (h.of_eq rfl rfl rfl le_rfl) hhears hf.told hf.audible
          ⟨hb.cap_eq, hb.overlap_eq, hb.tracks, hb.stream_eq, hb.idle, hb.decodes⟩
          hf.guard_le_overlap hlt.le hp (hlong p hp) cut.forced ?_
        · rw [takeCut, hat, toSamples_secondsAt, Int.toNat_natCast, hkeep]
          exact hcut.of_eq rfl rfl rfl le_rfl
        · intro hpause silent
          rw [htake] at hsurvives
          have hcut := hsurvives cut (by simp [judged]) hpause
          intro i x hx
          rw [← hat]
          exact hcut i x hx
      · rw [if_neg htakes]
        exact h.of_eq rfl rfl rfl le_rfl
  | boundary =>
    by_cases hp : s.pending = []
    · rw [step_boundary_nil env hpc' hp]
      exact h.of_eq rfl rfl rfl le_rfl
    · rw [step_boundary env hpc' hp]
      have hcut := OnCourse.cutRegion (s := { s with
          strategy := .silenceCut (sc.markCut (secondsAt s.window.received))
          vadLog := s.vadLog ++ [.cut ⟨secondsAt s.window.received, true, false⟩ true] })
        (h.of_eq rfl rfl rfl le_rfl) hhears hf.told hf.audible
        ⟨hb.cap_eq, hb.overlap_eq, hb.tracks, hb.stream_eq, hb.idle, hb.decodes⟩
        hf.guard_le_overlap hb.tracks.processedThrough_le le_rfl (hlong _ le_rfl)
        true (fun hforced => absurd hforced (by decide))
      rw [forceBoundary, hs]
      exact hcut.of_eq rfl rfl rfl le_rfl
  | tick =>
    have heq := LoopState.eq_of_core (silenceTick_core env s)
    rw [step_tick_silence env hpc' hs, heq]
    exact h.of_eq rfl rfl rfl le_rfl
  | tail => exact absurd hpc' hpc
  | done =>
    rw [step_done env hpc']
    exact h
  | raised =>
    rw [step_raised env hpc']
    exact h

theorem session_onCourse (hhears : env.Hears tl .clipped) (arm silenceCut forceCut : Seconds)
    (hf : Favourable env tl (.silenceCut (.new arm silenceCut forceCut)) audio) (n : ℕ)
    (hpc : (session env (.silenceCut (.new arm silenceCut forceCut)) audio n).pc ≠ .done) :
    OnCourse env tl (session env (.silenceCut (.new arm silenceCut forceCut)) audio n) := by
  induction n with
  | zero => exact ⟨⟨0, init_settled _ _ _⟩, Or.inl rfl⟩
  | succ n ih =>
    have hb := session_inv env (.silenceCut (.new arm silenceCut forceCut)) audio n
    obtain ⟨sc, hs⟩ := (step_chunked env).run
      (s := LoopState.init env (.silenceCut (.new arm silenceCut forceCut)) audio) ⟨_, rfl⟩ n
    have hsurvives := hf.survives (n + 1)
    rw [session_succ] at hpc hsurvives ⊢
    set s := session env (.silenceCut (.new arm silenceCut forceCut)) audio n with hsn
    have hdone : s.pc ≠ .done := by
      intro h
      rw [step_done env h] at hpc
      exact hpc h
    have htail : s.pc ≠ .tail := by
      intro h
      obtain ⟨tr, d, hres, -⟩ := resolveTail_frame env s
      rw [step_tail env h, hres] at hpc
      exact hpc rfl
    exact step_onCourse (ih hdone) hhears hf hb hs htail hsurvives

/-! ## The end of the audio -/

/-- The last cut lies on the last sample received, and a word is left that starts at the text
watermark or after it: `boundary_commit` held it back. -/
def HeldAtEnd (tl : Timeline) (s : LoopState K) : Prop :=
  s.window.processedThrough = s.window.received ∧
    ∃ w ∈ tl.words, s.transcript.committedThrough ≤ w.start ∧ w.start < s.window.ends

/-- At the tail the words are committed up to the end of the audio, unless some are held back
there. -/
theorem tail_recorded {s : LoopState K} {sc : SilenceCut K} (h : OnCourse env tl s)
    (hhears : env.Hears tl .clipped) (hf : Favourable env tl strategy audio)
    (hb : Bounded env audio.flatten s) (hs : s.strategy = .silenceCut sc)
    (hreceived : s.window.received = audio.flatten.length / 2) :
    ∃ c ≤ tl.before s.window.ends, Recorded env.unicode tl (resolveTail env s).transcript c ∧
      (c = tl.before s.window.ends ↔ ¬ HeldAtEnd tl s) := by
  obtain ⟨c, hc⟩ := h.settled
  have hrecorded := hc.resolveTail hf.told hf.audible hhears hb.tracks (by
    intro i x _ hlt hx
    have hstart := (Timeline.lt_before_iff hx _).mp hlt
    rw [RollingWindow.ends, hreceived] at hstart ⊢
    exact hf.long x (List.mem_of_getElem? hx) hstart)
  cases hdecode : decodesTail env s with
  | true =>
    rw [if_pos hdecode] at hrecorded
    refine ⟨_, le_rfl, hrecorded, fun _ hheld => ?_, fun _ => rfl⟩
    -- a remainder that is decoded is not empty
    rw [decodesTail, hheld.1, decide_eq_false (lt_irrefl _)] at hdecode
    cases hdecode
  | false =>
    rw [if_neg (by rw [hdecode]; exact Bool.false_ne_true)] at hrecorded
    refine ⟨c, hc.heard, hrecorded, ?_, ?_⟩
    · rintro hall ⟨-, w, hw, hthrough, hend⟩
      obtain ⟨i, hi⟩ := List.mem_iff_getElem?.mp hw
      have hlt : i < c := by
        rw [hall]
        exact (Timeline.lt_before_iff hi _).mpr hend
      exact absurd (hc.passed i w hlt hi) (not_lt.mpr hthrough)
    · intro hnot
      by_contra hne
      have hlt : c < tl.before s.window.ends := lt_of_le_of_ne hc.heard hne
      have hlen : c < tl.words.length := hlt.trans_le (tl.before_le_length _)
      have hx := List.getElem?_eq_getElem hlen
      refine hnot ⟨?_, _, List.mem_of_getElem? hx, hc.new c _ le_rfl hx,
        (Timeline.lt_before_iff hx _).mp hlt⟩
      -- nothing else skips the remainder
      have hpt := hb.tracks.processedThrough_le
      have hrs := hb.tracks.retainedStart_le
      rcases (decodesTail_eq_false_iff hs).mp hdecode with hall | ⟨hpos, hov, -⟩ | ⟨hzero, hmin⟩
      · omega
      · have hahead := h.ahead
        omega
      · have hmin' := hf.minUtterance_le
        have hwindow : s.window.windowSeconds = secondsAt (audio.flatten.length / 2) := by
          rw [RollingWindow.windowSeconds, RollingWindow.retained, hreceived]
          congr 1
          omega
        rw [hwindow] at hmin
        exact absurd hmin' (not_le.mpr hmin)

theorem tail_exact_iff (hhears : env.Hears tl .clipped) (arm silenceCut forceCut : Seconds)
    (hf : Favourable env tl (.silenceCut (.new arm silenceCut forceCut)) audio) {n : ℕ}
    (hpc : (session env (.silenceCut (.new arm silenceCut forceCut)) audio n).pc = .tail) :
    (committedWords (resolveTail env
        (session env (.silenceCut (.new arm silenceCut forceCut)) audio n)).transcript).map Word.key
      = (tl.heard 0 (secondsAt (audio.flatten.length / 2))).map Word.key ↔
    ¬ HeldAtEnd tl (session env (.silenceCut (.new arm silenceCut forceCut)) audio n) := by
  have hcourse := session_onCourse hhears arm silenceCut forceCut hf n (by simp [hpc])
  have hreceived := received_of_tail env _ audio hpc
  obtain ⟨sc, hs⟩ := (step_chunked env).run
    (s := LoopState.init env (.silenceCut (.new arm silenceCut forceCut)) audio) ⟨_, rfl⟩ n
  obtain ⟨c, hle, hrecorded, hiff⟩ := tail_recorded hcourse hhears hf (session_inv _ _ _ n) hs
    hreceived
  rw [RollingWindow.ends, hreceived] at hle hiff
  rw [← hiff, hrecorded.committed, Timeline.heard_eq, Timeline.before_zero, List.drop_zero]
  constructor
  · intro hkeys
    -- two prefixes of the timeline with the same keys are equally long
    have hlen := congrArg List.length hkeys
    have hb := tl.before_le_length (secondsAt (audio.flatten.length / 2))
    have hc := hrecorded.le_length
    simp only [List.length_map, List.length_take] at hlen
    omega
  · intro hall
    rw [hall]

/-- A session that ends at a cut that holds a word back loses it. -/
theorem heldAtEnd_loses (hhears : env.Hears tl .clipped) (arm silenceCut forceCut : Seconds)
    (hf : Favourable env tl (.silenceCut (.new arm silenceCut forceCut)) audio) {n : ℕ}
    (hpc : (session env (.silenceCut (.new arm silenceCut forceCut)) audio n).pc = .tail)
    (hheld : HeldAtEnd tl (session env (.silenceCut (.new arm silenceCut forceCut)) audio n)) :
    ¬ CommitsExactly env tl (.silenceCut (.new arm silenceCut forceCut)) audio := by
  rintro ⟨-, hall⟩
  have hstep : session env (.silenceCut (.new arm silenceCut forceCut)) audio (n + 1)
      = resolveTail env (session env (.silenceCut (.new arm silenceCut forceCut)) audio n) := by
    rw [session_succ, step_tail env hpc]
  obtain ⟨tr, d, hres, -⟩ := resolveTail_frame env
    (session env (.silenceCut (.new arm silenceCut forceCut)) audio n)
  have hdone := hall (n + 1) (by rw [hstep, hres])
  rw [hstep] at hdone
  exact (tail_exact_iff hhears arm silenceCut forceCut hf hpc).mp hdone hheld

omit [Field K] [LinearOrder K] in
/-- A cut whose boundary decides nothing commits nothing. -/
theorem cutRegion_transcript_of_none {s : LoopState K} {cut : ℕ} {forced : Bool}
    (h : boundaryCommit (env.decode s.display.decodes.length
        (s.window.samples none (some (cut : ℤ))) s.window.start) (secondsAt cut)
      (secondsAt (max s.window.retainedStart
        (cut - if forced then s.window.overlap else (toSamples TAIL_GUARD_S).toNat))) = none) :
    (cutRegion env s cut forced true).transcript = s.transcript := by
  show (commitDecision env _ (boundaryCommit _ _ _)).2.transcript = _
  rw [show (boundaryCommit _ _ _) = _ from h]
  rfl

omit [Field K] [LinearOrder K] in
theorem takeCut_transcript_of_none (s : LoopState K) (cut : Cut) {p : ℕ}
    (hat : cut.at_ = secondsAt p) (hforced : cut.forced = true)
    (h : boundaryCommit (env.decode s.display.decodes.length
        (s.window.samples none (some (p : ℤ))) s.window.start) (secondsAt p)
      (secondsAt (max s.window.retainedStart (p - s.window.overlap))) = none) :
    (takeCut env s cut).transcript = s.transcript := by
  have hkeep : keepsOverlap env cut = true := by rw [keepsOverlap, hforced]; rfl
  show (cutRegion env s (toSamples cut.at_).toNat cut.forced (keepsOverlap env cut)).transcript = _
  rw [hat, toSamples_secondsAt, Int.toNat_natCast, hforced, hkeep]
  exact cutRegion_transcript_of_none h

omit [Field K] [LinearOrder K] in
/-- The same of a state that the strategy has judged, from what it was before. -/
theorem takeCut_judged_transcript (s : LoopState K) (sc : SilenceCut K)
    (activities : List Activity) (asked : List VadEvent) (cut : Cut) {p : ℕ}
    (hat : cut.at_ = secondsAt p) (hforced : cut.forced = true)
    (h : boundaryCommit (env.decode s.display.decodes.length
        (s.window.samples none (some (p : ℤ))) s.window.start) (secondsAt p)
      (secondsAt (max s.window.retainedStart (p - s.window.overlap))) = none) :
    (takeCut env (judged s sc activities asked) cut).transcript = s.transcript :=
  takeCut_transcript_of_none (judged s sc activities asked) cut hat hforced h

/-- A session of the default window whose decoder hears the word. -/
noncomputable def lastWordEnv : Env ℝ where
  config :=
    { window := ⟨65, 1, five_le_defaultCap, defaultOverlap_nonneg, defaultOverlap_lt_cap⟩ }
  decode := fun _ samples offset => ⟨(lastWord.heard offset (offset + secondsAt samples.length)).map
    (Ending.clipped.report (offset + secondsAt samples.length))⟩
  wall := fun _ => 0
  unicode := .ascii
  numerics := realNumerics

theorem lastWord_hears : lastWordEnv.Hears lastWord .clipped := fun _ _ _ => rfl

theorem lastWord_favourable :
    Favourable lastWordEnv lastWord (.silenceCut (.new 15 (1 / 2) 2)) [quietPcm 32000] where
  wholeSamples := by simp
  overlapKept := rfl
  overlap_lt_cap := by
    show (toSamples 1).toNat < (toSamples 65).toNat
    decide +kernel
  minUtterance_le := by
    rw [List.flatten_singleton, length_quietPcm]
    norm_num [lastWordEnv, MIN_DECODE_S, secondsAt, RATE]
  guard_le_overlap := by
    show toSamples TAIL_GUARD_S ≤ ((toSamples 1).toNat : ℤ)
    decide +kernel
  told := Timeline.toldApart_of_length_le_one _ le_rfl
  audible := by
    intro w hw
    rw [List.mem_singleton.mp hw]
    exact ⟨'w', by simp, by decide⟩
  long := by
    intro w hw _
    rw [List.mem_singleton.mp hw, List.flatten_singleton, length_quietPcm]
    norm_num [secondsAt, RATE]
  survives := by
    -- the word is shorter than what a cut holds back
    intro n cut _ _ i x hx _ hbegan hlasts
    obtain rfl := List.mem_singleton.mp (List.mem_of_getElem? hx)
    rw [TAIL_GUARD_S] at hbegan
    norm_num at hbegan hlasts
    linarith

end Loop

end Myna
