import Myna.Streaming.LoopPass
import Myna.Streaming.LoopProgress
import Myna.Streaming.Settled

/-!
# Myna — LocalAgreement commits every word exactly once

A re-decode session over a timeline, with a decoder that reports every word it hears with its own
end. Agreement commits, forced boundaries and the final flush interleave as they may; each settles
the words it commits (`Settled.agreementCommit`, `Settled.boundary`, `Settled.resolveTail`), and the
end of the audio always finds a remainder to decode (`Behind`).

* **`Faithful`** — what the words and the settings have to be like;
* **`agreement_exactlyOnce`** — the words committed are those that start in the received audio, each
  once and in order.
-/

namespace Myna

namespace Loop

variable {K : Type*} {env : Env K} {tl : Timeline} {s : LoopState K} {c : ℕ}

/-! ## What agreement commits -/

/-- The audio retired up to the end of a word is not past that end, less one sample of overlap. -/
theorem secondsAt_retired_le {t : Seconds} {overlap : ℕ}
    (h : 0 < overlap ∨ secondsAt (toSamples t).toNat = t) (ht : 0 ≤ t) :
    secondsAt ((toSamples t).toNat - overlap) ≤ t := by
  rcases h with hov | haligned
  · have hround := two_mul_roundHalfEven_le (t * RATE)
    have hnonneg := toSamples_nonneg ht
    have hle : (toSamples t).toNat - overlap ≤ (toSamples t).toNat - 1 := by omega
    refine (secondsAt_le_iff.mpr hle).trans ?_
    rcases Nat.eq_zero_or_pos (toSamples t).toNat with hzero | hpos
    · rw [hzero, Nat.zero_sub, secondsAt_zero]
      exact ht
    · have hcast : (((toSamples t).toNat - 1 : ℕ) : ℚ) = (toSamples t : ℚ) - 1 := by
        rw [Nat.cast_sub hpos, Nat.cast_one]
        congr 1
        exact_mod_cast Int.toNat_of_nonneg hnonneg
      rw [secondsAt, hcast, div_le_iff₀ (by norm_num [RATE])]
      rw [toSamples]
      linarith
  · exact (secondsAt_le_iff.mpr (Nat.sub_le _ _)).trans haligned.le

/-- An agreement commit changes nothing, or it commits a prefix of the hypothesis that keeps clear
of the window tail, and retires the audio up to its end. -/
theorem agreementCommit_commitRule (env : Env K) (s : LoopState K) (last : Option Hypothesis)
    (hyp : Hypothesis) (windowEnd : Seconds) :
    let t := (agreementCommit env s (commitRule env.unicode last hyp windowEnd)).2
    (t.transcript = s.transcript ∧ t.window = s.window) ∨
      ∃ n w, hyp.words[n]? = some w ∧ s.transcript.committedThrough < w.stop ∧
        w.stop ≤ windowEnd - TAIL_GUARD_S ∧
        t.transcript = { (commit env s (hyp.words.take (n + 1))).2.transcript with
          committedThrough := w.stop } ∧
        t.window = s.window.retire (toSamples w.stop) := by
  intro t
  cases hrule : commitRule env.unicode last hyp windowEnd with
  | none =>
    left
    simp only [t, hrule]
    exact ⟨rfl, rfl⟩
  | some d =>
    obtain ⟨n, w, hw, hwords, hend, hclear⟩ := commitRule_spec hrule
    obtain ⟨tr, ev, hframe⟩ := commit_frame env s d.commitWords
    by_cases hlt : s.transcript.committedThrough < d.commitEnd
    · right
      refine ⟨n, w, hw, hend ▸ hlt, hclear, ?_, ?_⟩
      · rw [← hwords, ← hend]
        simp only [t, hrule, agreementCommit, if_pos hlt, coverTo]
      · rw [← hend]
        simp only [t, hrule, agreementCommit, if_pos hlt, hframe, coverTo]
    · left
      constructor <;> simp only [t, hrule, agreementCommit, if_neg hlt]

/-- **An agreement commit** settles the words it commits, and retires no audio of the words after
them. -/
theorem Settled.agreementCommit (h : Settled env.unicode tl s.transcript s.window c)
    (htold : tl.ToldApart env.unicode) (haudible : tl.Audible env.unicode)
    (hlong : ∀ w ∈ tl.words, w.start + 1 / 1000 < w.stop)
    (haligned : 0 < s.window.overlap ∨ ∀ w ∈ tl.words, secondsAt (toSamples w.stop).toNat = w.stop)
    (hwindow : s.window.processedThrough ≤ s.window.retainedStart + s.window.overlap)
    {hyp : Hypothesis}
    (hhyp : hyp.words = reported tl .whole s.window.ends (tl.before s.window.start)
      (tl.before s.window.ends)) (last : Option Hypothesis) :
    let t := (Loop.agreementCommit env s (commitRule env.unicode last hyp s.window.ends)).2
    (∃ c', Settled env.unicode tl t.transcript t.window c') ∧
      (t.window = s.window ∨ ∃ p, toSamples p + 8000 ≤ s.window.received ∧
        t.window = s.window.retire (toSamples p)) := by
  intro t
  rcases agreementCommit_commitRule env s last hyp s.window.ends with
    ⟨htr, hw⟩ | ⟨n, w, hget, hthrough, hclear, htr, hw⟩
  · exact ⟨⟨c, by rw [htr, hw]; exact h⟩, Or.inl hw⟩
  set a := tl.before s.window.start with ha
  have hb := tl.before_le_length s.window.ends
  have hkept : a ≤ c := h.kept
  -- the last agreed word, and its place in the timeline
  obtain ⟨x, hx, hn, rfl⟩ : ∃ x, tl.words[a + n]? = some x ∧ a + n < tl.before s.window.ends ∧
      Ending.whole.report s.window.ends x = w := by
    rw [hhyp] at hget
    obtain ⟨hlt, -⟩ := List.getElem?_eq_some_iff.mp hget
    rw [length_reported hb] at hlt
    rw [getElem?_reported (by omega), Option.map_eq_some_iff] at hget
    obtain ⟨x, hx, hw⟩ := hget
    exact ⟨x, hx, by omega, hw⟩
  have hstop : (Ending.whole.report s.window.ends x).stop = x.stop := rfl
  rw [hstop] at hthrough hclear htr hw
  have hmem := List.mem_of_getElem? hx
  have hpos : 0 ≤ x.stop := (tl.nonneg x hmem).trans (tl.spans x hmem).le
  have hretained : secondsAt s.window.retainedStart ≤ x.start :=
    Timeline.before_le_iff.mp le_rfl _ x (Nat.le_add_right a n) hx
  -- what is recorded
  have hle : a + (n + 1) ≤ tl.before s.window.ends := hn
  have htake : hyp.words.take (n + 1) = reported tl .whole s.window.ends a (a + (n + 1)) := by
    rw [hhyp, take_reported hle]
  have hfresh := h.freshWords_eq htold .whole s.window.ends (b := a + (n + 1)) (hle.trans hb) (by
    intro i y hci _ hy
    have hlong' := hlong y (List.mem_of_getElem? hy)
    have hnew := h.new i y hci hy
    show _ < y.stop
    linarith)
  have hrecorded := (h.toRecorded.commit haudible (hle.trans hb) hfresh).1
  rw [← htake] at hrecorded
  -- what is retired
  have hsamples : toSamples x.stop + 8000 ≤ s.window.received := by
    have hle : toSamples x.stop ≤ (s.window.received : ℤ) - 8000 := by
      refine roundHalfEven_le ?_
      rw [RollingWindow.ends, TAIL_GUARD_S, secondsAt] at hclear
      norm_num [RATE] at hclear ⊢
      linarith
    omega
  have hnonneg := toSamples_nonneg hpos
  have hprocessed : (s.window.retire (toSamples x.stop)).processedThrough
      = max s.window.processedThrough (toSamples x.stop).toNat := by
    rw [RollingWindow.retire_processedThrough, min_eq_left (by omega)]
  have hstart : (s.window.retire (toSamples x.stop)).retainedStart
      = max s.window.retainedStart ((toSamples x.stop).toNat - s.window.overlap) := by
    rw [RollingWindow.retire_retainedStart, hprocessed, if_pos rfl]
    omega
  have hkeep : secondsAt s.window.retainedStart
      ≤ secondsAt (s.window.retire (toSamples x.stop)).retainedStart := by
    rw [hstart, secondsAt_le_iff]
    exact le_max_left _ _
  have hreach := secondsAt_retired_le (haligned.imp_right (fun hall => hall x hmem)) hpos
  have hafter : ∀ i y, max c (a + (n + 1)) ≤ i → tl.words[i]? = some y → x.stop ≤ y.start := by
    intro i y hi hy
    exact Timeline.stop_le_start (by have := (le_max_right c (a + (n + 1))).trans hi; omega) hx hy
  refine ⟨⟨max c (a + (n + 1)), ?_⟩, Or.inr ⟨x.stop, hsamples, hw⟩⟩
  rw [htr, hw]
  refine ⟨⟨hrecorded.le_length, hrecorded.committed, hrecorded.history⟩, ?_, ?_, ?_, hafter, ?_, ?_⟩
  · -- a word to come starts in the window, and at the watermark or after it
    refine Timeline.before_le_iff.mpr fun i y hi hy => ?_
    have hci := (le_max_left c (a + (n + 1))).trans hi
    rw [hstart]
    rcases max_choice s.window.retainedStart ((toSamples x.stop).toNat - s.window.overlap)
      with hmax | hmax <;> rw [hmax]
    · exact Timeline.before_le_iff.mp h.kept i y hci hy
    · exact hreach.trans (hafter i y hi hy)
  · intro hle
    -- the watermark has left the window start behind, so no overlap is kept
    have hgap : s.window.retainedStart < (toSamples x.stop).toNat := by
      have hfar : secondsAt (s.window.retainedStart + 16) ≤ x.stop := by
        have hlong' := hlong x hmem
        rw [secondsAt] at hretained ⊢
        push_cast
        rw [RATE] at hretained ⊢
        linarith
      have hle := toSamples_mono hfar
      rw [toSamples_secondsAt] at hle
      omega
    rw [hprocessed, hstart] at hle
    have hzero : s.window.overlap = 0 := by omega
    have hold : c ≤ tl.before (secondsAt s.window.retainedStart) := h.apart (by omega)
    refine max_le (hold.trans (Timeline.before_mono hkeep)) ?_
    have hwhole : secondsAt (toSamples x.stop).toNat = x.stop :=
      (haligned.resolve_left (by omega)) x hmem
    refine (Timeline.lt_before_iff hx _).mpr ?_
    rw [hstart, hzero, Nat.sub_zero, max_eq_right hgap.le, hwhole]
    exact tl.spans x hmem
  · intro i y hi hy hge
    rcases lt_or_ge i (a + (n + 1)) with hlt | hge'
    · -- up to the last agreed word
      left
      show y.stop ≤ x.stop + 1 / 1000
      rcases (show i ≤ a + n by omega).lt_or_eq with hbefore | rfl
      · have hsep := Timeline.stop_le_start hbefore hy hx
        have hspan := tl.spans x hmem
        linarith
      · rw [hx] at hy
        rw [Option.some.inj hy]
        linarith
    · have hic : i < c := by omega
      have hmax : max c (a + (n + 1)) = c := max_eq_left (by omega)
      rw [hmax]
      refine (h.old i y hic hy (hkeep.trans hge)).imp_left fun hle => ?_
      show y.stop ≤ x.stop + 1 / 1000
      linarith
  · intro i y hi hy
    show y.start < x.stop
    rcases lt_or_ge i c with hic | hci
    · exact (h.passed i y hic hy).trans hthrough
    · exact (Timeline.start_le_start (by omega) hy hx).trans_lt (tl.spans x hmem)
  · exact max_le h.heard hle

/-- An agreement tick changes nothing, or it commits what the rule makes of the window's decode. -/
theorem agreementTick_commits (env : Env K) (s : LoopState K) :
    agreementTick env s = s ∨ ∃ s' : LoopState K,
      s'.transcript = s.transcript ∧ s'.window = s.window ∧
      let hyp := env.decode s.display.decodes.length (s'.window.samples none none) s'.window.start
      let t := (agreementCommit env s' (commitRule env.unicode s.lastHyp hyp s'.window.ends)).2
      (agreementTick env s).transcript = t.transcript ∧ (agreementTick env s).window
        = t.window := by
  unfold agreementTick
  split_ifs
  · exact Or.inl rfl
  · right
    simp only [timedDecode]
    generalize hhyp : env.decode s.display.decodes.length (s.window.samples none none)
      s.window.start = hyp
    set s' : LoopState K := { s with
      lastHyp := some hyp
      display := { s.display with
        decodes := s.display.decodes ++ [⟨.tick, s.window.samples none none, s.window.start⟩]
        lastDecodeEnd := s.window.ends } } with hs'
    refine ⟨s', rfl, rfl, ?_⟩
    have hwindow : s'.window = s.window := rfl
    rw [hwindow, hhyp]
    generalize agreementCommit env s' _ = committed
    have hcore := agreementShow_core env committed.2 hyp committed.1
    have htr := congrArg LoopState.transcript hcore
    have hw := congrArg LoopState.window hcore
    exact ⟨htr, hw⟩

theorem agreementShow_lastDecodeEnd (s : LoopState K) (env : Env K) (hyp : Hypothesis)
    (produced : Bool) :
    (agreementShow env s hyp produced).display.lastDecodeEnd = s.display.lastDecodeEnd := by
  have hshown (text : Text) : (emitUnstable s text).display.lastDecodeEnd
      = s.display.lastDecodeEnd := by
    unfold emitUnstable
    split_ifs <;> rfl
  unfold agreementShow
  dsimp only
  split_ifs
  · exact hshown _
  · exact hshown _

/-- A tick that is due and finds nothing agreed remembers what it heard. -/
theorem agreementTick_unagreed (env : Env K) {s : LoopState K} (hyp : Hypothesis)
    (hdue : ¬ s.window.ends - s.display.lastDecodeEnd < env.config.cadence)
    (hhyp : env.decode s.display.decodes.length (s.window.samples none none) s.window.start = hyp)
    (hrule : commitRule env.unicode s.lastHyp hyp s.window.ends = none) :
    ∃ d, d.lastDecodeEnd = s.window.ends ∧
      agreementTick env s = { s with lastHyp := some hyp, display := d } := by
  unfold agreementTick
  rw [if_neg hdue]
  simp only [timedDecode, hhyp, hrule, agreementCommit]
  exact ⟨_, agreementShow_lastDecodeEnd _ _ _ _, LoopState.eq_of_core (agreementShow_core _ _ _ _)⟩

/-- A tick that is due and finds words agreed past the watermark, some of them fresh. -/
theorem agreementTick_agreed (env : Env K) {s : LoopState K} (hyp : Hypothesis)
    (dec : CommitDecision)
    (hdue : ¬ s.window.ends - s.display.lastDecodeEnd < env.config.cadence)
    (hhyp : env.decode s.display.decodes.length (s.window.samples none none) s.window.start = hyp)
    (hrule : commitRule env.unicode s.lastHyp hyp s.window.ends = some dec)
    (hlt : s.transcript.committedThrough < dec.commitEnd)
    (hfresh : freshText env s dec.commitWords ≠ []) :
    ∃ d, agreementTick env s = { s with
      lastHyp := some hyp
      transcript := { (commit env s dec.commitWords).2.transcript with
        committedThrough := dec.commitEnd }
      window := s.window.retire (toSamples dec.commitEnd)
      display := d } := by
  have hcommit (last : Option Hypothesis) (d : Display) :
      commit env { s with lastHyp := last, display := d } dec.commitWords = (true, { s with
        lastHyp := last
        transcript := (commit env s dec.commitWords).2.transcript
        display := (commit env { s with lastHyp := last, display := d } dec.commitWords).2.display
        }) := by
    have hfresh' : freshText env { s with lastHyp := last, display := d } dec.commitWords ≠ [] :=
      hfresh
    rw [commit, commit, if_neg hfresh, if_neg hfresh']
    rfl
  unfold agreementTick
  rw [if_neg hdue]
  simp only [timedDecode, hhyp, hrule, agreementCommit, if_pos hlt]
  rw [hcommit]
  exact ⟨_, LoopState.eq_of_core (agreementShow_core _ _ _ _)⟩

theorem commit_stale {env : Env K} {s : LoopState K} {words : List Word}
    (hstale : freshText env s words = []) : (commit env s words).2 = s := by
  rw [commit, if_pos hstale]

/-- The end of the audio commits nothing where its decode has nothing fresh. -/
theorem resolveTail_stale {env : Env K} {s : LoopState K}
    (hstale : freshText env s (env.decode s.display.decodes.length
      (s.window.samples none none) s.window.start).words = []) :
    (resolveTail env s).transcript = s.transcript := by
  unfold resolveTail
  simp only [timedDecode]
  split_ifs
  · refine (congrArg LoopState.transcript (commit_stale ?_)).trans rfl
    exact hstale
  · rfl

/-! ## Along a session -/

/-- Audio is left for the tail: less is processed than received, save right after a forced boundary,
where the window has room for the rest of the chunk. -/
def Behind (s : LoopState K) : Prop :=
  s.window.processedThrough < s.window.received ∨ s.window.received = 0 ∨
    (s.pc = .fill ∧ s.pending ≠ [] ∧ s.window.retained < s.window.cap)

/-- The first words are settled, no more than the overlap is kept, and audio is left. -/
structure Following (env : Env K) (tl : Timeline) (s : LoopState K) : Prop where
  settled : ∃ c, Settled env.unicode tl s.transcript s.window c
  window : s.window.processedThrough ≤ s.window.retainedStart + s.window.overlap
  behind : Behind s

/-- A step that commits nothing, retires nothing and leaves audio. -/
theorem Following.of_eq {t : LoopState K} (h : Following env tl s)
    (htr : t.transcript = s.transcript) (hw : t.window = s.window) (hbehind : Behind t) :
    Following env tl t where
  settled := by
    rw [htr, hw]
    exact h.settled
  window := by
    rw [hw]
    exact h.window
  behind := hbehind

/-- Audio is left as long as the positions stay. -/
theorem Behind.of_eq {t : LoopState K} (h : Behind s) (hpc : s.pc ≠ .fill)
    (hw : t.window = s.window) : Behind t := by
  rw [Behind, hw]
  exact h.imp_right (Or.imp_right fun hfill => absurd hfill.1 hpc)

/-- What the exactly-once property rests on: whole samples, an overlap shorter than the window, an
utterance of the minimum length; words that last longer than the slack of the time dedupe, that the
text dedupe tells apart, and that end on a sample where no overlap is kept. -/
structure Faithful (env : Env K) (tl : Timeline) (audio : List Bytes) : Prop where
  wholeSamples : ∀ data ∈ audio, data.length % 2 = 0
  overlap_lt_cap : env.config.window.overlapSamples < env.config.window.capSamples
  minUtterance_le : env.config.minUtterance ≤ secondsAt (audio.flatten.length / 2)
  told : tl.ToldApart env.unicode
  audible : tl.Audible env.unicode
  long : ∀ w ∈ tl.words, w.start + 1 / 1000 < w.stop
  aligned : 0 < env.config.window.overlapSamples ∨
    ∀ w ∈ tl.words, secondsAt (toSamples w.stop).toNat = w.stop

/-- **A forced boundary** stays with the timeline. -/
theorem Following.force {audio : List Bytes} (h : Following env tl s) (hhears : env.Hears tl .whole)
    (hf : Faithful env tl audio) (hb : Bounded env audio.flatten s) (hp : s.pending ≠ []) :
    Following env tl { forceAgreement env s with pc := .fill, cutTaken := true } := by
  obtain ⟨c, hc⟩ := h.settled
  have ht := hb.tracks
  have hrs := ht.retainedStart_le_received
  have hwords := words_window hhears ht s.display.decodes.length
  have hsettled := hc.boundary (s := (timedDecode env s .commit (s.window.samples none none)
      s.window.start).2) hf.told hf.audible
    (env.decode s.display.decodes.length (s.window.samples none none) s.window.start)
    s.window.received (((s.window.received : ℚ) - s.window.overlap) / RATE) hrs
    ht.processedThrough_le le_rfl hwords ?_ ?_ ?_ ?_
  · have hpt := RollingWindow.retire_processedThrough_eq ht.processedThrough_le le_rfl true
    have hstart := RollingWindow.retire_retainedStart s.window s.window.received true
    rw [hpt, if_pos rfl] at hstart
    have hov := hb.overlap_eq
    have hcap := hb.cap_eq
    have hlt := hf.overlap_lt_cap
    obtain ⟨tr, d, hforce, -⟩ := forceAgreement_frame env s
    have htr : (forceAgreement env s).transcript = tr := by rw [hforce]
    rw [hforce]
    refine ⟨?_, ?_, Or.inr (Or.inr ⟨rfl, hp, ?_⟩)⟩
    · rw [← htr]
      exact hsettled
    · show (s.window.retire s.window.received).processedThrough
        ≤ (s.window.retire s.window.received).retainedStart + s.window.overlap
      rw [hpt, hstart]
      omega
    · show s.window.received - (s.window.retire s.window.received).retainedStart < s.window.cap
      rw [hstart]
      omega
  · show secondsAt (s.window.received - s.window.overlap) ≤ max _ s.window.start
    rcases le_or_gt s.window.overlap s.window.received with hle | hgt
    · refine le_max_of_le_left ?_
      rw [secondsAt, Nat.cast_sub hle]
    · rw [Nat.sub_eq_zero_of_le hgt.le]
      exact le_max_of_le_right (secondsAt_le_iff.mpr (Nat.zero_le _))
  · intro i x _ _ hx _
    exact hf.long x (List.mem_of_getElem? hx)
  · intro i x _ _ hx _ _
    left
    show x.stop ≤ x.stop + 1 / 1000
    linarith
  · exact fun _ => hc.heard

/-- **An agreement tick** stays with the timeline. -/
theorem Following.tick {audio : List Bytes} (h : Following env tl s) (hhears : env.Hears tl .whole)
    (hf : Faithful env tl audio) (hb : Bounded env audio.flatten s) (hpc : s.pc = .tick) :
    Following env tl { agreementTick env s with pc := .chunk } := by
  have hne : s.pc ≠ .fill := by
    rw [hpc]
    decide
  rcases agreementTick_commits env s with htick | ⟨s', htr', hw', htr, hw⟩
  · rw [htick]
    exact h.of_eq rfl rfl (h.behind.of_eq hne rfl)
  · obtain ⟨c, hc⟩ := h.settled
    have hwords := words_window hhears hb.tracks s.display.decodes.length
    have haligned := hf.aligned
    rw [← hb.overlap_eq] at haligned
    rw [← htr', ← hw'] at hc
    have hwindow := h.window
    rw [← hw'] at hwords haligned hwindow
    obtain ⟨hsettled, hretire⟩ := hc.agreementCommit hf.told hf.audible hf.long haligned hwindow
      hwords s.lastHyp
    rw [← htr, ← hw] at hsettled
    rw [← hw, hw'] at hretire
    rcases hretire with hsame | ⟨p, hp, hretired⟩
    · refine ⟨hsettled, ?_, Behind.of_eq (t := { agreementTick env s with pc := .chunk })
        h.behind hne hsame⟩
      show (agreementTick env s).window.processedThrough
        ≤ (agreementTick env s).window.retainedStart + (agreementTick env s).window.overlap
      rw [hsame]
      exact h.window
    · have hprocessed := RollingWindow.retire_processedThrough s.window (toSamples p) true
      have hstart := RollingWindow.retire_retainedStart s.window (toSamples p) true
      refine ⟨hsettled, ?_, ?_⟩
      · show (agreementTick env s).window.processedThrough
          ≤ (agreementTick env s).window.retainedStart + (agreementTick env s).window.overlap
        rw [hretired, hstart, RollingWindow.retire_overlap, if_pos rfl]
        omega
      · show Behind { agreementTick env s with pc := .chunk }
        rw [Behind]
        dsimp only
        rw [hretired, hprocessed, RollingWindow.retire_received]
        rcases h.behind with hlt | hzero | ⟨hfill, -⟩
        · left
          omega
        · exact Or.inr (Or.inl hzero)
        · exact absurd hfill hne

variable [Field K] [LinearOrder K]

/-- A re-decode session stays one. -/
theorem step_agreement (env : Env K) :
    StepSystem.Keeps (step env) (fun s => s.strategy = .localAgreement) := by
  intro s hs
  cases hpc : s.pc with
  | chunk => cases haudio : s.audio <;> simp [step, hpc, haudio, hs]
  | fill =>
    rcases step_fill env hpc with ⟨-, hstep⟩ | ⟨-, hstep⟩ <;> rw [hstep] <;> exact hs
  | observe => simp [step, hpc, hs]
  | boundary =>
    by_cases hp : s.pending = []
    · rw [step_boundary_nil env hpc hp]
      exact hs
    · obtain ⟨tr, d, hforce, -⟩ := forceAgreement_frame env s
      rw [step_boundary env hpc hp, forceBoundary, hs]
      dsimp only
      rw [hforce]
      exact hs
  | tick =>
    rw [step_tick_agreement env hpc hs]
    rcases agreementTick_frame env s with htick | ⟨tr, w, hyp, d, htick, -, -⟩ <;>
      rw [htick] <;> exact hs
  | tail =>
    obtain ⟨tr, d, hres, -⟩ := resolveTail_frame env s
    rw [step_tail env hpc, hres]
    exact hs
  | done =>
    rw [step_done env hpc]
    exact hs
  | raised =>
    rw [step_raised env hpc]
    exact hs

/-- What the states of a re-decode session over whole samples are known to be. -/
structure Regular (env : Env K) (stream : Bytes) (s : LoopState K) : Prop where
  bounded : Bounded env stream s
  whole : WholeSamples s
  agreement : s.strategy = .localAgreement

theorem step_regular (env : Env K) (stream : Bytes) :
    StepSystem.Keeps (step env) (Regular env stream) := fun s h =>
  ⟨step_bounded env stream s h.bounded, step_wholeSamples env s h.whole,
    step_agreement env s h.agreement⟩

omit [Field K] [LinearOrder K] in
/-- Filling the window leaves audio: what a forced boundary processed is followed by more. -/
theorem Following.fill {stream : Bytes} (h : Following env tl s) (hr : Regular env stream s) :
    Following env tl { s with
      pc := .boundary
      window := s.window.filled s.pending
      pending := s.pending.drop (s.window.room s.pending * 2) } := by
  obtain ⟨c, hc⟩ := h.settled
  refine ⟨⟨c, hc.receive rfl rfl (Nat.le_add_right _ _)⟩, h.window, ?_⟩
  have hpt := hr.bounded.tracks.processedThrough_le
  show s.window.processedThrough < s.window.received + s.window.room s.pending ∨
    s.window.received + s.window.room s.pending = 0 ∨ _
  rcases h.behind with hlt | hzero | ⟨-, hne, hfree⟩
  · left
    omega
  · omega
  · -- whole samples are pending, and there is room for one
    have heven := hr.whole.pending
    have hpos := List.length_pos_of_ne_nil hne
    have hroom : 0 < s.window.room s.pending := by
      rw [RollingWindow.room]
      omega
    left
    omega

/-- **Every step before the end stays with the timeline.** -/
theorem step_following {audio : List Bytes} (hhears : env.Hears tl .whole)
    (hf : Faithful env tl audio) (s : LoopState K) (hr : Regular env audio.flatten s)
    (h : s.pc ≠ .done → Following env tl s) :
    (step env s).pc ≠ .done → Following env tl (step env s) := by
  intro hnext
  have hb := hr.bounded
  cases hpc : s.pc with
  | chunk =>
    have h := h (by rw [hpc]; decide)
    cases haudio : s.audio <;> simp only [step, hpc, haudio] <;>
      exact h.of_eq rfl rfl (h.behind.of_eq (by rw [hpc]; decide) rfl)
  | fill =>
    have h := h (by rw [hpc]; decide)
    rcases step_fill env hpc with ⟨hodd, -⟩ | ⟨-, hstep⟩
    · have heven := hr.whole.pending
      omega
    · have hafter : afterFill s.strategy = .boundary := by rw [hr.agreement, afterFill]
      rw [hstep, hafter]
      exact h.fill hr
  | observe =>
    have h := h (by rw [hpc]; decide)
    simp only [step, hpc, hr.agreement]
    exact h.of_eq rfl rfl (h.behind.of_eq (by rw [hpc]; decide) rfl)
  | boundary =>
    have h := h (by rw [hpc]; decide)
    by_cases hp : s.pending = []
    · rw [step_boundary_nil env hpc hp]
      exact h.of_eq rfl rfl (h.behind.of_eq (by rw [hpc]; decide) rfl)
    · rw [step_boundary env hpc hp, forceBoundary, hr.agreement]
      exact h.force hhears hf hb hp
  | tick =>
    rw [step_tick_agreement env hpc hr.agreement]
    exact (h (by rw [hpc]; decide)).tick hhears hf hb hpc
  | tail =>
    obtain ⟨tr, d, hres, -⟩ := resolveTail_frame env s
    rw [step_tail env hpc, hres] at hnext
    exact absurd rfl hnext
  | done =>
    rw [step_done env hpc] at hnext
    exact absurd hpc hnext
  | raised => exact absurd hpc hr.whole.not_raised

omit [Field K] [LinearOrder K] in
/-- The whole timeline up to the end of the audio is committed at the tail. -/
theorem Following.resolveTail {audio : List Bytes} (h : Following env tl s)
    (hhears : env.Hears tl .whole) (hf : Faithful env tl audio)
    (hr : Regular env audio.flatten s) (hpc : s.pc = .tail)
    (hreceived : s.window.received = audio.flatten.length / 2) :
    Recorded env.unicode tl (Loop.resolveTail env s).transcript (tl.before s.window.ends) := by
  obtain ⟨c, hc⟩ := h.settled
  have hrecorded := hc.resolveTail hf.told hf.audible hhears hr.bounded.tracks
    (fun i x _ _ hx => hf.long x (List.mem_of_getElem? hx))
  rcases h.behind with hlt | hzero | ⟨hfill, -⟩
  · have hdecode : decodesTail env s = true := by
      have hsilent : silentRemainder s = false := by
        rw [silentRemainder, hr.agreement]
      rw [decodesTail, hsilent, decide_eq_true hlt]
      -- before any boundary the window is the whole utterance
      rcases Nat.eq_zero_or_pos s.window.processedThrough with hpt | hpt
      · have hrs := hr.bounded.tracks.retainedStart_le
        have hmin := hf.minUtterance_le
        have hwindow : s.window.windowSeconds = secondsAt (audio.flatten.length / 2) := by
          rw [RollingWindow.windowSeconds, RollingWindow.retained, hreceived]
          congr 1
          omega
        rw [hwindow, decide_eq_true hmin, Bool.or_true]
        rfl
      · rw [decide_eq_true (by omega : s.window.processedThrough ≠ 0)]
        rfl
    rwa [if_pos hdecode] at hrecorded
  · -- nothing was received
    have hempty : tl.before s.window.ends = 0 := by
      rw [RollingWindow.ends, hzero, secondsAt_zero, Timeline.before_zero]
    have hc0 : c = 0 := by
      have hheard := hc.heard
      rw [hzero, secondsAt_zero, Timeline.before_zero] at hheard
      omega
    rw [hempty, hc0] at hrecorded
    rw [hempty]
    split_ifs at hrecorded <;> exact hrecorded
  · rw [hpc] at hfill
    cases hfill

/-- A re-decode session whose decoder hears the timeline. -/
def hearing (tl : Timeline) (pair : WindowPair) (cadence : Seconds) : Env ℚ where
  config := { window := pair, cadence := cadence }
  decode := fun _ samples offset => ⟨(tl.heard offset (offset + secondsAt samples.length)).map
    (Ending.whole.report (offset + secondsAt samples.length))⟩
  wall := fun _ => 0
  unicode := .ascii
  numerics := ⟨31 / 32, id⟩

theorem hearing_hears (tl : Timeline) (pair : WindowPair) (cadence : Seconds) :
    (hearing tl pair cadence).Hears tl .whole := fun _ _ _ => rfl

/-- Two words, the second of which the first one ends with. -/
def gatheredRed : Timeline where
  words := [⟨[' ', 'g', 'a', 't', 'h', 'e', 'r', 'e', 'd'], 0, 1 / 100⟩,
    ⟨[' ', 'r', 'e', 'd'], 2 / 100, 3 / 100⟩]
  nonneg := by decide +kernel
  spans := by decide +kernel
  ordered := by decide +kernel

/-- A session of half a second over them. -/
def gatheredEnv : Env ℚ :=
  hearing gatheredRed ⟨5, 1 / 200, by norm_num, by norm_num, by norm_num⟩ (1 / 100)

def gatheredAudio : List Bytes := [List.replicate 320 0, List.replicate 16000 0]

/-- What is heard of the two words up to sample `n`. -/
def gatheredHeard (n : ℕ) : Hypothesis :=
  ⟨reported gatheredRed .whole (secondsAt n) (gatheredRed.before 0)
    (gatheredRed.before (secondsAt n))⟩

/-- Both hearings agree on the first word. -/
theorem gatheredHeard_agreed :
    commitRule gatheredEnv.unicode (some (gatheredHeard 160)) (gatheredHeard 8160) (secondsAt 8160)
      = some ⟨1 / 100, gatheredRed.words.take 1⟩ := by
  have hmap : (commitRule gatheredEnv.unicode (some (gatheredHeard 160)) (gatheredHeard 8160)
      (secondsAt 8160)).map (fun dec => (dec.commitEnd, dec.commitWords))
        = some (1 / 100, gatheredRed.words.take 1) := by
    decide +kernel
  obtain ⟨⟨commitEnd, commitWords⟩, hrule, hpair⟩ := Option.map_eq_some_iff.mp hmap
  obtain ⟨rfl, rfl⟩ := Prod.mk.inj hpair
  exact hrule

/-- The window over the first chunk. -/
def gatheredFirst (first : Bytes) : RollingWindow :=
  (RollingWindow.new gatheredEnv.config.window).filled first

/-- The window over both chunks. -/
def gatheredBoth (first second : Bytes) : RollingWindow := (gatheredFirst first).filled second

section

variable {first second : Bytes}

theorem gatheredEnv_capSamples : gatheredEnv.config.window.capSamples = 80000 := by decide +kernel

theorem gatheredEnv_overlapSamples : gatheredEnv.config.window.overlapSamples = 80 := by
  decide +kernel

theorem gatheredFirst_received (hfirst : first.length = 320) :
    (gatheredFirst first).received = 160 := by
  have hroom : (RollingWindow.new gatheredEnv.config.window).room first = 160 := by
    simp [RollingWindow.room, RollingWindow.new, RollingWindow.retained, hfirst,
      gatheredEnv_capSamples]
  show 0 + (RollingWindow.new gatheredEnv.config.window).room first = 160
  rw [hroom]

theorem gatheredFirst_room (hfirst : first.length = 320) (hsecond : second.length = 16000) :
    (gatheredFirst first).room second = 8000 := by
  have hfree : (gatheredFirst first).cap - (gatheredFirst first).retained = 79840 := by
    show gatheredEnv.config.window.capSamples - ((gatheredFirst first).received - 0) = 79840
    rw [gatheredFirst_received hfirst, gatheredEnv_capSamples]
  rw [RollingWindow.room, hfree, hsecond]
  rfl

theorem gatheredBoth_received (hfirst : first.length = 320) (hsecond : second.length = 16000) :
    (gatheredBoth first second).received = 8160 := by
  show (gatheredFirst first).received + (gatheredFirst first).room second = 8160
  rw [gatheredFirst_received hfirst, gatheredFirst_room hfirst hsecond]

/-- What the decoder answers for the window of the session. -/
theorem gathered_hears (first second : Bytes) (n m : ℕ) {w : RollingWindow}
    (hw : (session gatheredEnv .localAgreement [first, second] n).window = w) :
    gatheredEnv.decode m (w.samples none none) w.start
      = ⟨reported gatheredRed .whole w.ends (gatheredRed.before w.start)
        (gatheredRed.before w.ends)⟩ := by
  have htracks := (session_inv gatheredEnv .localAgreement [first, second] n).tracks
  rw [hw] at htracks
  exact congrArg Hypothesis.mk (words_window
    (hearing_hears gatheredRed gatheredEnv.config.window gatheredEnv.config.cadence) htracks m)

/-- The first tick hears the first word and finds nothing agreed. -/
theorem gathered_firstTick (hfirst : first.length = 320) (second : Bytes) :
    ∃ d, d.lastDecodeEnd = secondsAt 160 ∧ session gatheredEnv .localAgreement [first, second] 4
      = { LoopState.init gatheredEnv .localAgreement [first, second] with
          audio := [second]
          window := gatheredFirst first
          lastHyp := some (gatheredHeard 160)
          display := d } := by
  have htake := run_take gatheredEnv (s := LoopState.init gatheredEnv .localAgreement
    [first, second]) rfl rfl (by omega) (by
      simp [LoopState.init, RollingWindow.new, RollingWindow.retained, hfirst,
        gatheredEnv_capSamples])
  have hthree : session gatheredEnv .localAgreement [first, second] 3
      = { LoopState.init gatheredEnv .localAgreement [first, second] with
          pc := .tick, audio := [second], window := gatheredFirst first } := by
    rw [session_succ, session, htake]
    rfl
  have hends : (gatheredFirst first).ends = secondsAt 160 := by
    rw [RollingWindow.ends, gatheredFirst_received hfirst]
  have hstart : (gatheredFirst first).start = 0 := secondsAt_zero
  have hheard := gathered_hears first second 3 0 (w := gatheredFirst first) (by rw [hthree])
  rw [hends, hstart] at hheard
  obtain ⟨d, hd, htick⟩ := agreementTick_unagreed gatheredEnv
    (s := session gatheredEnv .localAgreement [first, second] 3) (gatheredHeard 160)
    (by
      rw [hthree]
      show ¬ (gatheredFirst first).ends - 0 < gatheredEnv.config.cadence
      rw [hends]
      decide +kernel)
    (by
      rw [hthree]
      exact hstart ▸ hheard)
    (by
      rw [hthree]
      simp [commitRule, LoopState.init])
  refine ⟨d, ?_, ?_⟩
  · rw [hd, hthree]
    exact hends
  · rw [session_succ, step_tick_agreement _ (by rw [hthree]) (by rw [hthree]; rfl), htick, hthree]
    rfl

/-- The second tick commits the first word and retires what is before its end. -/
theorem gathered_secondTick (hfirst : first.length = 320) (hsecond : second.length = 16000) :
    ∃ tr d, tr.committedThrough = 1 / 100 ∧
      tr.committedWordTexts
        = (gatheredRed.words.take 1).map (fun w => gatheredEnv.unicode.norm w.text) ∧
      committedWords tr = gatheredRed.words.take 1 ∧
      session gatheredEnv .localAgreement [first, second] 9
        = { LoopState.init gatheredEnv .localAgreement [first, second] with
            pc := .tail
            audio := []
            window := (gatheredBoth first second).retire (toSamples (1 / 100))
            lastHyp := some (gatheredHeard 8160)
            transcript := tr
            display := d } := by
  obtain ⟨d₁, hd₁, hfour⟩ := gathered_firstTick hfirst second
  have hroom := gatheredFirst_room hfirst hsecond
  have hfree := (gatheredFirst first).room_le_free second
  have htake := run_take gatheredEnv (s := session gatheredEnv .localAgreement [first, second] 4)
    (by rw [hfour]; rfl) (by rw [hfour]) (by omega) (by rw [hfour]; dsimp only; omega)
  have hseven : session gatheredEnv .localAgreement [first, second] 7
      = { LoopState.init gatheredEnv .localAgreement [first, second] with
          pc := .tick
          audio := []
          window := gatheredBoth first second
          lastHyp := some (gatheredHeard 160)
          display := d₁ } := by
    rw [session_succ, session_add _ _ _ 4 2, htake, hfour]
    rfl
  have hends : (gatheredBoth first second).ends = secondsAt 8160 := by
    rw [RollingWindow.ends, gatheredBoth_received hfirst hsecond]
  have hstart : (gatheredBoth first second).start = 0 := secondsAt_zero
  have hheard := gathered_hears first second 7 d₁.decodes.length (w := gatheredBoth first second)
    (by rw [hseven])
  rw [hends, hstart] at hheard
  have hfresh : freshWords gatheredEnv (session gatheredEnv .localAgreement [first, second] 7)
      (gatheredRed.words.take 1) = gatheredRed.words.take 1 := by
    rw [freshWords, hseven]
    exact if_pos le_rfl
  have hnew : freshText gatheredEnv (session gatheredEnv .localAgreement [first, second] 7)
      (gatheredRed.words.take 1) ≠ [] := by
    rw [freshText, hfresh]
    decide +kernel
  obtain ⟨d, htick⟩ := agreementTick_agreed gatheredEnv
    (s := session gatheredEnv .localAgreement [first, second] 7) (gatheredHeard 8160)
    ⟨1 / 100, gatheredRed.words.take 1⟩
    (by
      rw [hseven]
      show ¬ (gatheredBoth first second).ends - d₁.lastDecodeEnd < gatheredEnv.config.cadence
      rw [hends, hd₁]
      decide +kernel)
    (by
      rw [hseven]
      exact hstart ▸ hheard)
    (by
      rw [hseven]
      show commitRule gatheredEnv.unicode (some (gatheredHeard 160)) (gatheredHeard 8160)
        (gatheredBoth first second).ends = _
      rw [hends]
      exact gatheredHeard_agreed)
    (by
      rw [hseven]
      show (0 : ℚ) < 1 / 100
      norm_num)
    hnew
  have height := step_tick_agreement gatheredEnv
    (s := session gatheredEnv .localAgreement [first, second] 7) (by rw [hseven])
      (by rw [hseven]; rfl)
  rw [← session_succ] at height
  refine ⟨{ (commit gatheredEnv (session gatheredEnv .localAgreement [first, second] 7)
    (gatheredRed.words.take 1)).2.transcript with committedThrough := 1 / 100 }, d, rfl, ?_, ?_, ?_⟩
  · rw [commit, if_neg hnew, emitCommitted, hfresh, hseven]
    rfl
  · rw [commit, if_neg hnew, emitCommitted, hfresh, hseven]
    rfl
  · rw [session_succ, height, htick, hseven]
    rfl

/-- The end of the session has nothing fresh: the second word is dropped. -/
theorem gathered_run (hfirst : first.length = 320) (hsecond : second.length = 16000) :
    ∃ n, (session gatheredEnv .localAgreement [first, second] n).pc = .done ∧
      (committedWords (session gatheredEnv .localAgreement [first, second] n).transcript).length
        = 1 := by
  obtain ⟨tr, d, hthrough, htexts, hcommits, hnine⟩ := gathered_secondTick hfirst hsecond
  generalize hw : (gatheredBoth first second).retire (toSamples (1 / 100)) = w at hnine
  have hprocessed : w.processedThrough = 160 := by
    rw [← hw, RollingWindow.retire_processedThrough, gatheredBoth_received hfirst hsecond]
    show max 0 (min (toSamples (1 / 100)) (8160 : ℕ)).toNat = 160
    decide +kernel
  have hretained : w.retainedStart = 80 := by
    rw [← hw, RollingWindow.retire_retainedStart, hw, hprocessed]
    show max 0 (160 - gatheredEnv.config.window.overlapSamples) = 80
    rw [gatheredEnv_overlapSamples]
    rfl
  have hends : w.ends = secondsAt 8160 := by
    rw [← hw, RollingWindow.ends, RollingWindow.retire_received,
      gatheredBoth_received hfirst hsecond]
  have hstart : w.start = secondsAt 80 := by
    rw [RollingWindow.start, hretained]
  have hstale (n : ℕ) : freshText gatheredEnv
      (session gatheredEnv .localAgreement [first, second] 9)
      (gatheredEnv.decode n
        ((session gatheredEnv .localAgreement [first, second] 9).window.samples none none)
        (session gatheredEnv .localAgreement [first, second] 9).window.start).words = [] := by
    rw [gathered_hears first second 9 n rfl, freshText, freshWords, hnine,
      if_neg (by dsimp only; omega)]
    dsimp only
    rw [hthrough, htexts, hstart, hends]
    decide +kernel
  have htail := step_tail gatheredEnv
    (s := session gatheredEnv .localAgreement [first, second] 9) (by rw [hnine])
  rw [← session_succ] at htail
  refine ⟨10, ?_, ?_⟩
  · rw [htail]
    rfl
  · rw [htail, resolveTail_stale (hstale _), hnine]
    show (committedWords tr).length = 1
    rw [hcommits]
    rfl

end

end Loop

end Myna
