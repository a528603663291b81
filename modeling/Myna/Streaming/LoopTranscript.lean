import Myna.Streaming.LoopFrame

/-!
# Myna — the transcript is the verbatim concatenation of the commits (I1–I4)

Four paths commit text and all of them go through `emitCommitted`; everything else leaves the
transcript and the committed events alone.

* **`Consumer`** — a receiver of the event stream, which files committed texts under their index;
* **`Spoken`** — what holds of a transcript and the events that carried it;
* **`Talks`** — an operation that keeps `Spoken` and only appends events; one lemma per operation;
* **`session_transcript`** — every state of every session, whatever the decoder says.
-/

namespace Myna

/-! ## The receiver -/

/-- The committed texts of an event stream, with the indices they carry. -/
def committedFinals : List Event → List (Text × Option ℕ)
  | [] => []
  | .final text .committed index :: events => (text, index) :: committedFinals events
  | _ :: events => committedFinals events

/-- A receiver of the event stream: the committed segments and the unstable text on show. -/
structure Consumer where
  committed : List Text := []
  unstable : Text := []

/-- A committed segment is filed under its index, which rewrites one already there; an unstable text
replaces the one on show. -/
def Consumer.receive (c : Consumer) : Event → Consumer
  | .final text .committed (some i) =>
    { committed := if i < c.committed.length then c.committed.set i text
        else c.committed ++ [text] }
  | .final _ .committed none => c
  | .final text .unstable _ => { c with unstable := text }
  | .progress => c

/-- What a receiver holds after `events`. -/
def Consumer.replay (events : List Event) : Consumer := events.foldl Consumer.receive {}

theorem committedFinals_append (xs ys : List Event) :
    committedFinals (xs ++ ys) = committedFinals xs ++ committedFinals ys := by
  induction xs using committedFinals.induct with
  | case1 => rfl
  | case2 text index events ih => simp [committedFinals, ih]
  | case3 event events hne ih =>
    rw [List.cons_append, committedFinals, committedFinals, ih] <;> exact hne

namespace Loop

variable {K : Type*}

/-! ## The invariant -/

/-- What holds of a transcript and the events that carried it. -/
structure Spoken (env : Env K) (tr : Transcript) (events : List Event) : Prop where
  index_eq : tr.segmentIndex = tr.committed.length
  commits_eq : tr.commits.map Prod.fst = tr.committed
  nonempty : ∀ text ∈ tr.committed, text ≠ []
  first : ∀ text ∈ tr.committed.head?, env.unicode.NoLeadingSpace text
  finals : committedFinals events
    = if env.config.onCommit then [] else tr.committed.zipIdx.map (fun p => (p.1, some p.2))
  received : (Consumer.replay events).committed
    = if env.config.onCommit then [] else tr.committed
  unstable : ∀ text index, .final text .unstable index ∈ events → index = none ∧ text ≠ []

theorem init_spoken (env : Env K) : Spoken env {} [] := by
  constructor <;> simp [committedFinals, Consumer.replay]

/-- An event that commits nothing, and carries no index, keeps the invariant. -/
theorem Spoken.append {env : Env K} {tr : Transcript} {events : List Event}
    (h : Spoken env tr events) {event : Event} (hfinal : committedFinals [event] = [])
    (hreceive : ∀ c : Consumer, (c.receive event).committed = c.committed)
    (hunstable : ∀ text index, event = .final text .unstable index → index = none ∧ text ≠ []) :
    Spoken env tr (events ++ [event]) := by
  refine ⟨h.index_eq, h.commits_eq, h.nonempty, h.first, ?_, ?_, ?_⟩
  · rw [committedFinals_append, hfinal, List.append_nil]
    exact h.finals
  · rw [Consumer.replay, List.foldl_append, List.foldl_cons, List.foldl_nil, hreceive]
    exact h.received
  · intro text index hmem
    rcases List.mem_append.mp hmem with hmem | hmem
    · exact h.unstable text index hmem
    · exact hunstable text index (List.mem_singleton.mp hmem).symm

/-- **`emit_committed` keeps the invariant**, for a text that is not empty and, as the first one,
does not start with whitespace. -/
theorem spoken_emitCommitted {env : Env K} {s : LoopState K}
    (h : Spoken env s.transcript s.display.events) {text : Text} (words : List Word)
    (hne : text ≠ [])
    (hfirst : s.transcript.committed = [] → env.unicode.NoLeadingSpace text) :
    Spoken env (emitCommitted env s text words).transcript
      (emitCommitted env s text words).display.events := by
  have hidx := h.index_eq
  constructor
  · simp [emitCommitted, hidx]
  · simp [emitCommitted, h.commits_eq]
  · intro t ht
    rcases List.mem_append.mp ht with ht | ht
    · exact h.nonempty t ht
    · rw [List.mem_singleton.mp ht]
      exact hne
  · intro t ht
    cases hc : s.transcript.committed with
    | nil =>
      simp only [emitCommitted, hc, List.nil_append, List.head?_cons, Option.mem_some_iff] at ht
      rw [← ht]
      exact hfirst hc
    | cons u us =>
      refine h.first t ?_
      simpa [emitCommitted, hc] using ht
  · have hfin := h.finals
    cases ho : env.config.onCommit with
    | true => simpa [emitCommitted, ho] using hfin
    | false =>
      simp only [ho, Bool.false_eq_true, if_false] at hfin
      simp [emitCommitted, ho, committedFinals_append, hfin, committedFinals, hidx,
        List.zipIdx_append]
  · have hrec := h.received
    cases ho : env.config.onCommit with
    | true => simpa [emitCommitted, ho] using hrec
    | false =>
      simp only [ho, Bool.false_eq_true, if_false] at hrec
      simp only [Consumer.replay] at hrec
      simp [emitCommitted, ho, Consumer.replay, Consumer.receive, hrec, hidx]
  · intro t index hmem
    cases ho : env.config.onCommit with
    | true =>
      simp only [emitCommitted, ho, if_true] at hmem
      exact h.unstable t index hmem
    | false =>
      simp only [emitCommitted, ho, Bool.false_eq_true, if_false, List.mem_append,
        List.mem_singleton] at hmem
      rcases hmem with hmem | hmem
      · exact h.unstable t index hmem
      · cases hmem

/-! ## What the operations say -/

/-- From `s` to `t` the invariant is kept and events are only appended. -/
structure Talks (env : Env K) (s t : LoopState K) : Prop where
  spoken : Spoken env s.transcript s.display.events → Spoken env t.transcript t.display.events
  events : s.display.events <+: t.display.events

theorem Talks.of_eq {env : Env K} {s t : LoopState K}
    (htr : ∃ through, t.transcript = { s.transcript with committedThrough := through })
    (hev : t.display.events = s.display.events) : Talks env s t := by
  obtain ⟨through, htr⟩ := htr
  refine ⟨fun h => ?_, by rw [hev]⟩
  rw [htr, hev]
  exact ⟨h.index_eq, h.commits_eq, h.nonempty, h.first, h.finals, h.received, h.unstable⟩

theorem Talks.trans {env : Env K} {s t u : LoopState K} (h : Talks env s t) (h' : Talks env t u) :
    Talks env s u :=
  ⟨fun hs => h'.spoken (h.spoken hs), h.events.trans h'.events⟩

/-- What an operation says is said from any state with the same transcript and events. -/
theorem Talks.after {env : Env K} {s t u : LoopState K} (h : Talks env t u)
    (htr : ∃ through, t.transcript = { s.transcript with committedThrough := through })
    (hev : t.display.events = s.display.events) : Talks env s u :=
  (Talks.of_eq htr hev).trans h

theorem talks_progress (env : Env K) (s : LoopState K) : Talks env s (emit s .progress) :=
  ⟨fun h => h.append rfl (fun _ => rfl) (by simp), List.prefix_append _ _⟩

theorem talks_emitUnstable (env : Env K) (s : LoopState K) (text : Text) :
    Talks env s (emitUnstable s text) := by
  unfold emitUnstable
  split_ifs with h
  · refine ⟨fun hs => hs.append rfl (fun _ => rfl) ?_, List.prefix_append _ _⟩
    rintro t index ⟨⟩
    exact ⟨rfl, h.1⟩
  · exact Talks.of_eq ⟨_, rfl⟩ rfl

/-- **A commit says its text once**: it is the join of the fresh words, which is not empty. -/
theorem talks_commit (env : Env K) (s : LoopState K) (words : List Word) :
    Talks env s (commit env s words).2 := by
  unfold commit
  split_ifs with h
  · exact Talks.of_eq ⟨_, rfl⟩ rfl
  · constructor
    · intro hs
      refine spoken_emitCommitted hs _ (Unicode.utteranceEdge_joinNatural_ne_nil h _) fun hnil => ?_
      rw [hnil]
      exact Unicode.noLeadingSpace_utteranceEdge_first _
    · simp only [emitCommitted]
      split_ifs
      · exact List.prefix_rfl
      · exact List.prefix_append _ _

theorem talks_commitDecision (env : Env K) (s : LoopState K) (decision : Option CommitDecision) :
    Talks env s (commitDecision env s decision).2 := by
  cases decision with
  | none => exact Talks.of_eq ⟨_, rfl⟩ rfl
  | some d => exact (talks_commit env s d.commitWords).trans (Talks.of_eq ⟨_, rfl⟩ rfl)

/-- A decode says nothing. -/
theorem talks_timedDecode (env : Env K) (s : LoopState K) (kind : DecodeKind) (samples : List ℚ)
    (offset : Seconds) : Talks env s (timedDecode env s kind samples offset).2 :=
  Talks.of_eq ⟨_, rfl⟩ rfl

theorem talks_commitCut (env : Env K) (s : LoopState K) (hyp : Hypothesis) (cut : ℕ)
    (forced keepOverlap : Bool) : Talks env s (commitCut env s hyp cut forced keepOverlap) := by
  cases keepOverlap with
  | true => exact talks_commitDecision env s _
  | false => exact (talks_commit env s hyp.words).trans (Talks.of_eq ⟨_, rfl⟩ rfl)

theorem talks_cutRegion (env : Env K) (s : LoopState K) (cut : ℕ) (forced keepOverlap : Bool) :
    Talks env s (cutRegion env s cut forced keepOverlap) := by
  have hdecode := talks_timedDecode env s .commit (s.window.samples none (some cut)) s.window.start
  refine (hdecode.trans (talks_commitCut env _ (timedDecode env s .commit
    (s.window.samples none (some cut)) s.window.start).1 cut forced keepOverlap)).trans ?_
  exact Talks.of_eq ⟨_, rfl⟩ rfl

theorem talks_forceAgreement (env : Env K) (s : LoopState K) :
    Talks env s (forceAgreement env s) := by
  have hdecode := talks_timedDecode env s .commit (s.window.samples none none) s.window.start
  refine (hdecode.trans (talks_commitDecision env _ (boundaryCommit
    (timedDecode env s .commit (s.window.samples none none) s.window.start).1
    (secondsAt s.window.received) (((s.window.received : ℚ) - s.window.overlap) / RATE)))).trans ?_
  exact Talks.of_eq ⟨_, rfl⟩ rfl

theorem talks_previewTick (env : Env K) (s : LoopState K) : Talks env s (previewTick env s) := by
  have hframe := chunkedPreview_frame env s
  unfold previewTick
  dsimp only
  rw [hframe]
  split_ifs
  · exact (talks_emitUnstable env _ _).after ⟨_, rfl⟩ rfl
  · exact (talks_progress env _).after ⟨_, rfl⟩ rfl

theorem talks_silenceTick (env : Env K) (s : LoopState K) : Talks env s (silenceTick env s) := by
  unfold silenceTick
  split_ifs
  · exact Talks.of_eq ⟨_, rfl⟩ rfl
  · exact Talks.of_eq ⟨_, rfl⟩ rfl
  · dsimp only
    split_ifs
    · exact (talks_previewTick env _).after ⟨_, rfl⟩ rfl
    · exact (talks_progress env _).after ⟨_, rfl⟩ rfl

theorem talks_agreementCommit (env : Env K) (s : LoopState K) (decision : Option CommitDecision) :
    Talks env s (agreementCommit env s decision).2 := by
  cases decision with
  | none => exact Talks.of_eq ⟨_, rfl⟩ rfl
  | some d =>
    by_cases hlt : s.transcript.committedThrough < d.commitEnd
    · simp only [agreementCommit, if_pos hlt]
      exact (talks_commit env s d.commitWords).trans (Talks.of_eq ⟨_, rfl⟩ rfl)
    · simp only [agreementCommit, if_neg hlt]
      exact Talks.of_eq ⟨_, rfl⟩ rfl

theorem talks_agreementShow (env : Env K) (s : LoopState K) (hyp : Hypothesis) (produced : Bool) :
    Talks env s (agreementShow env s hyp produced) := by
  unfold agreementShow
  dsimp only
  split_ifs
  · exact talks_emitUnstable env s _
  · exact (talks_emitUnstable env s _).trans (talks_progress env _)

theorem talks_agreementTick (env : Env K) (s : LoopState K) :
    Talks env s (agreementTick env s) := by
  unfold agreementTick
  split_ifs
  · exact Talks.of_eq ⟨_, rfl⟩ rfl
  · refine Talks.trans ?_ (talks_agreementShow env _ _ _)
    refine Talks.trans ?_ (talks_agreementCommit env _ _)
    exact Talks.of_eq ⟨_, rfl⟩ rfl

theorem talks_resolveTail (env : Env K) (s : LoopState K) : Talks env s (resolveTail env s) := by
  unfold resolveTail
  split_ifs
  · refine Talks.trans ?_ (Talks.of_eq ⟨_, rfl⟩ rfl)
    refine Talks.trans (talks_timedDecode env s .commit (s.window.samples none none)
      s.window.start) ?_
    exact talks_commit env _ _
  · exact Talks.of_eq ⟨_, rfl⟩ rfl

/-! ## Sessions -/

variable [Field K] [LinearOrder K]

theorem talks_observeStep (env : Env K) (s : LoopState K) (sc : SilenceCut K) :
    Talks env s (observeStep env s sc) := by
  rcases hj : judge env s sc with ⟨asked, sc', acts⟩
  cases asked with
  | none =>
    rw [observeStep_none hj]
    exact Talks.of_eq ⟨_, rfl⟩ rfl
  | some cut =>
    rw [observeStep_some hj]
    split_ifs
    · refine Talks.trans (t := judged s sc' acts [.cut cut true]) (Talks.of_eq ⟨_, rfl⟩ rfl) ?_
      exact (talks_cutRegion env _ _ _ _).trans (Talks.of_eq ⟨_, rfl⟩ rfl)
    · exact Talks.of_eq ⟨_, rfl⟩ rfl

theorem talks_step (env : Env K) (s : LoopState K) : Talks env s (step env s) := by
  have hsame : Talks env s s := Talks.of_eq ⟨_, rfl⟩ rfl
  cases hpc : s.pc with
  | chunk =>
    unfold step
    rw [hpc]
    dsimp only
    split <;> exact Talks.of_eq ⟨_, rfl⟩ rfl
  | fill =>
    rcases step_fill env hpc with ⟨-, hstep⟩ | ⟨-, hstep⟩
    · rw [hstep]
      exact Talks.of_eq ⟨_, rfl⟩ rfl
    · rw [hstep]
      exact Talks.of_eq ⟨_, rfl⟩ rfl
  | observe =>
    unfold step
    rw [hpc]
    dsimp only
    split
    · exact talks_observeStep env s _
    · exact Talks.of_eq ⟨_, rfl⟩ rfl
  | boundary =>
    unfold step
    rw [hpc]
    dsimp only
    split_ifs
    · exact Talks.of_eq ⟨_, rfl⟩ rfl
    · refine Talks.trans (t := forceBoundary env s) ?_ (Talks.of_eq ⟨_, rfl⟩ rfl)
      unfold forceBoundary
      split
      · exact (talks_cutRegion env _ _ _ _).after ⟨_, rfl⟩ rfl
      · exact talks_forceAgreement env s
  | tick =>
    unfold step
    rw [hpc]
    dsimp only
    split
    · exact (talks_silenceTick env s).trans (Talks.of_eq ⟨_, rfl⟩ rfl)
    · exact (talks_agreementTick env s).trans (Talks.of_eq ⟨_, rfl⟩ rfl)
  | tail =>
    rw [step, hpc]
    exact talks_resolveTail env s
  | done =>
    rw [step, hpc]
    exact hsame
  | raised =>
    rw [step, hpc]
    exact hsame

theorem session_spoken (env : Env K) (strategy : Strategy K) (audio : List Bytes) (n : ℕ) :
    Spoken env (session env strategy audio n).transcript
      (session env strategy audio n).display.events :=
  StepSystem.Keeps.run (I := fun s => Spoken env s.transcript s.display.events)
    (fun s h => (talks_step env s).spoken h) (init_spoken env) n

theorem session_events_append_only (env : Env K) (strategy : Strategy K) (audio : List Bytes)
    (n m : ℕ) : (session env strategy audio n).display.events
      <+: (session env strategy audio (n + m)).display.events := by
  induction m with
  | zero => exact List.prefix_rfl
  | succ m ih =>
    rw [← Nat.add_assoc, session_succ]
    exact ih.trans (talks_step env _).events

/-- The result, set at the end of the audio and nowhere else. -/
def Resolved (s : LoopState K) : Prop :=
  if s.pc = .done then s.result = some s.transcript.committed.flatten else s.result = none

omit [Field K] [LinearOrder K] in
theorem resolved_of_not_done {s : LoopState K} (hpc : s.pc ≠ .done) (hr : s.result = none) :
    Resolved s := by
  rw [Resolved, if_neg hpc]
  exact hr

theorem step_resolved (env : Env K) : StepSystem.Keeps (step env) Resolved := by
  intro s h
  cases hpc : s.pc with
  | done =>
    rw [step, hpc]
    exact h
  | tail =>
    obtain ⟨tr, d, htail, -⟩ := resolveTail_frame env s
    rw [step, hpc]
    dsimp only
    rw [htail, Resolved, if_pos rfl]
  | raised =>
    rw [step, hpc]
    exact h
  | chunk =>
    rw [Resolved, if_neg (by simp [hpc])] at h
    unfold step
    rw [hpc]
    dsimp only
    split <;> exact resolved_of_not_done (by simp) h
  | fill =>
    rw [Resolved, if_neg (by simp [hpc])] at h
    rcases step_fill env hpc with ⟨-, hstep⟩ | ⟨-, hstep⟩
    · rw [hstep]
      exact resolved_of_not_done (by simp) h
    · rw [hstep]
      exact resolved_of_not_done (by cases s.strategy <;> simp [afterFill]) h
  | observe =>
    rw [Resolved, if_neg (by simp [hpc])] at h
    unfold step
    rw [hpc]
    dsimp only
    split
    · next sc _ =>
      obtain ⟨-, -, hr, hpc'⟩ := observeStep_input env s sc
      refine resolved_of_not_done ?_ (hr.trans h)
      rcases hpc' with hpc' | hpc' <;> simp [hpc', hpc]
    · exact resolved_of_not_done (by simp) h
  | boundary =>
    rw [Resolved, if_neg (by simp [hpc])] at h
    unfold step
    rw [hpc]
    dsimp only
    split_ifs
    · exact resolved_of_not_done (by simp) h
    · obtain ⟨st, tr, hyp, log, d, stop, hforce, -⟩ := forceBoundary_frame env s
      rw [hforce]
      exact resolved_of_not_done (by simp) h
  | tick =>
    rw [Resolved, if_neg (by simp [hpc])] at h
    obtain ⟨hpc', -, -, hr⟩ := step_tick env hpc
    exact resolved_of_not_done (by simp [hpc']) (hr.trans h)

theorem session_resolved (env : Env K) (strategy : Strategy K) (audio : List Bytes) (n : ℕ) :
    Resolved (session env strategy audio n) :=
  (step_resolved env).run (resolved_of_not_done (by simp [LoopState.init]) rfl) n

/-- **The transcript is the verbatim concatenation of the commits.** In every state of every
session, whatever the decoder answers, the committed texts are `texts`: none is empty, the first
does not start with whitespace, the committed events carry exactly these texts with the indices
`0, 1, …` in order, and a receiver of the events, who files each text under its index, holds
exactly these. Unstable events carry no index. Later states only append events, so no index is
rewritten, and at the end of the audio the result is the concatenation of the texts. With
`on_commit` set the texts go there instead of into the events. -/
theorem session_transcript (env : Env K) (strategy : Strategy K) (audio : List Bytes) (n : ℕ) :
    let s := session env strategy audio n
    ∃ texts : List Text,
      s.transcript.commits.map Prod.fst = texts ∧
      committedFinals s.display.events = (if env.config.onCommit then []
        else texts.zipIdx.map (fun p => (p.1, some p.2))) ∧
      (Consumer.replay s.display.events).committed = (if env.config.onCommit then [] else texts) ∧
      (∀ text ∈ texts, text ≠ []) ∧
      (∀ text ∈ texts.head?, env.unicode.NoLeadingSpace text) ∧
      (∀ text index, .final text .unstable index ∈ s.display.events → index = none) ∧
      (∀ m, s.display.events <+: (session env strategy audio (n + m)).display.events) ∧
      s.result = if s.pc = .done then some texts.flatten else none := by
  intro s
  have h := session_spoken env strategy audio n
  have hr := session_resolved env strategy audio n
  refine ⟨s.transcript.committed, h.commits_eq, h.finals, h.received, h.nonempty, h.first,
    fun text index hmem => (h.unstable text index hmem).1,
    session_events_append_only env strategy audio n, ?_⟩
  unfold Resolved at hr
  split_ifs at hr ⊢ <;> exact hr

end Loop

end Myna
