import Myna.Orchestrator.Fsm

/-!
# Myna — whole runs of the session state machine

Every action of a run is allowed by the actions before it (`Allowed`), and the log of actions agrees
with the state (`Good`): each primitive of the machine keeps that, so every handler does, so every
run does.

* **`onInput_good`**, **`run_good`** — one input, and a run of them;
* **`onInput_of_terminal`**, **`run_of_terminal`** — a terminal state is left alone;
* **`fsm_safe`** — what a run can and cannot do;
* **`captureLost_reported`** — a capture fault reaches the outcome.
-/

namespace Myna

namespace Orchestrator

/-! ## The log -/

/-- An action that ends the session. -/
def Action.ending : Action → Bool
  | .sendAbort => true
  | .emit (.done _) => true
  | .emit (.error _ _) => true
  | _ => false

/-- An emission that goes with no change of state. -/
def Action.advisory : Action → Bool
  | .emit .transcribing => true
  | .emit (.snippet _) => true
  | .emit (.final _) => true
  | .emit (.unstable _) => true
  | .emit (.warning _ _) => true
  | _ => false

def Action.isDone : Action → Bool
  | .emit (.done _) => true
  | _ => false

/-- An action that sends something up, behind what was sent before. -/
def Action.sends : Action → Bool
  | .forwardAudio _ => true
  | .sendFinish => true
  | _ => false

/-- The session has been ended. -/
def Over (log : List Action) : Prop := ∃ a ∈ log, a.ending = true

@[simp] theorem over_nil : ¬ Over [] := fun ⟨_, h, _⟩ => absurd h List.not_mem_nil

@[simp] theorem over_append {l l' : List Action} : Over (l ++ l') ↔ Over l ∨ Over l' := by
  simp only [Over, List.mem_append, or_and_right, exists_or]

@[simp] theorem over_cons {a : Action} {l : List Action} :
    Over (a :: l) ↔ a.ending = true ∨ Over l := by
  simp [Over]

/-- What an action owes to the actions before it. -/
def Allowed (past : List Action) : Action → Prop
  | .forwardAudio _ => .sendFinish ∉ past ∧ ¬ Over past
  | .sendFinish => .sendFinish ∉ past ∧ ¬ Over past
  | .sendAbort => ¬ Over past
  | .emit .audioDropped => True
  | .emit .ready => .emit .ready ∉ past ∧ ¬ Over past
  | .emit .loading => .emit .loading ∉ past ∧ .emit .ready ∉ past ∧ ¬ Over past
  | .emit (.error _ _) => ∀ code failure, .emit (.error code failure) ∉ past
  | .emit _ => ¬ Over past

/-- Which end the session came to, if it came to one, and why. -/
def Verdict (inputs : List Input) (log : List Action) (s : Fsm) : Prop :=
  match s.session with
  | .active | .finalizing => True
  | .done => .emit (.done s.transcript) ∈ log ∧ ∀ fault, .emit (.captureLost fault) ∉ log
  | .failed => ∃ code failure, s.failure = some (code, failure) ∧
      (.emit (.error code failure) ∈ log ∨
        code = "capture_failed" ∧ .captureFailed failure ∈ inputs ∧ .sendAbort ∈ log)
  | .aborted => .abort ∈ inputs ∧ .sendAbort ∈ log

/-- The log of a run agrees with the state it led to. -/
structure Good (inputs : List Input) (log : List Action) (s : Fsm) : Prop where
  lawful : History.Lawful Allowed log
  finished : Over log ↔ s.session.isTerminal = true
  finish : .sendFinish ∈ log → s.session ≠ .active
  ready : .emit .ready ∈ log ↔ s.residency = .resident
  loading : .emit .loading ∈ log → s.residency ≠ .unloaded
  salvage : s.session.isTerminal = false → s.captureFault = none →
    ∀ fault, .emit (.captureLost fault) ∉ log
  verdict : Verdict inputs log s

namespace Good

variable {tr : String → String} {inputs : List Input} {log : List Action} {s : Fsm}

theorem init : Good [] [] {} where
  lawful := History.lawful_nil
  finished := by simp [SessionState.isTerminal]
  finish := by simp
  ready := by simp
  loading := by simp
  salvage := by simp
  verdict := trivial

/-- A verdict stands as inputs go on. -/
theorem mono (h : Good inputs log s) (more : List Input) : Good (inputs ++ more) log s := by
  refine { h with verdict := ?_ }
  have hv := h.verdict
  unfold Verdict at hv ⊢
  cases hsession : s.session <;> simp only [hsession] at hv ⊢
  · exact hv
  · obtain ⟨code, failure, hf, hcause⟩ := hv
    refine ⟨code, failure, hf, hcause.imp_right fun hc => ?_⟩
    exact ⟨hc.1, List.mem_append_left _ hc.2.1, hc.2.2⟩
  · exact ⟨List.mem_append_left _ hv.1, hv.2⟩

theorem not_over (h : Good inputs log s) (hlive : s.session.isTerminal = false) : ¬ Over log := by
  rw [h.finished, hlive]
  decide

/-- A live session has come to no verdict. -/
theorem verdict_of_live {inputs : List Input} {log : List Action} {s : Fsm}
    (hlive : s.session.isTerminal = false) : Verdict inputs log s := by
  unfold Verdict
  cases hsession : s.session <;> first | trivial | (rw [hsession] at hlive; cases hlive)

theorem emit (h : Good inputs log s) (hlive : s.session.isTerminal = false) {a : Action}
    (ha : a.advisory = true) : Good inputs (log ++ [a]) s := by
  have hnot := h.not_over hlive
  have hallowed : Allowed log a ∧ a.ending = false ∧ a ≠ .sendFinish ∧ a ≠ .emit .ready ∧
      a ≠ .emit .loading ∧ ∀ fault, a ≠ .emit (.captureLost fault) := by
    unfold Action.advisory at ha
    split at ha <;> simp_all [Allowed, Action.ending]
  obtain ⟨hallow, hend, hfinish, hready, hloading, hlost⟩ := hallowed
  refine ⟨History.lawful_concat.mpr ⟨h.lawful, hallow⟩, ?_, ?_, ?_, ?_, ?_, verdict_of_live hlive⟩
  · simp [hend, h.finished]
  · simpa [hfinish.symm] using h.finish
  · simpa [hready.symm] using h.ready
  · simpa [hloading.symm] using h.loading
  · intro _ hnone fault
    simpa [(hlost fault).symm] using h.salvage hlive hnone fault

/-- Several emissions in a row. -/
theorem emits (hlive : s.session.isTerminal = false) (out : List Action) :
    ∀ {log}, Good inputs log s → (∀ a ∈ out, a.advisory = true) → Good inputs (log ++ out) s := by
  induction out with
  | nil =>
    intro log h _
    rwa [List.append_nil]
  | cons a rest ih =>
    intro log h hall
    have hrest := ih (h.emit hlive (hall a List.mem_cons_self))
      fun b hb => hall b (List.mem_cons_of_mem _ hb)
    rwa [List.append_assoc] at hrest

theorem markResident (h : Good inputs log s) (hlive : s.session.isTerminal = false) :
    Good inputs (log ++ s.markResident.2) s.markResident.1 := by
  rw [Fsm.markResident]
  split_ifs with hres
  · rwa [List.append_nil]
  · have hnot := h.not_over hlive
    have hready : Action.emit .ready ∉ log := fun hmem => hres (h.ready.mp hmem)
    refine ⟨History.lawful_concat.mpr ⟨h.lawful, hready, hnot⟩, ?_, ?_, ?_, ?_, ?_,
      verdict_of_live hlive⟩
    · simp [Action.ending, h.finished]
    · simpa using h.finish
    · simp
    · simp
    · intro _ hnone fault
      simpa using h.salvage hlive hnone fault

theorem markResident_session (s : Fsm) : s.markResident.1.session = s.session := by
  rw [Fsm.markResident]
  split_ifs <;> rfl

theorem terminate (h : Good inputs log s) (hlive : s.session.isTerminal = false) {s' : Fsm}
    (hresidency : s'.residency = s.residency) {before : List Action}
    (hbefore : History.Lawful Allowed (log ++ before))
    (hends : ∀ a ∈ before, a.ending = true) (herror : ∀ c f, .emit (.error c f) ∉ before)
    (code : String) (failure : Failure) :
    Good inputs (log ++ (before ++ (s'.terminate code failure).2))
      (s'.terminate code failure).1 := by
  have hnot := h.not_over hlive
  have hother : ∀ a : Action, a.ending = false → a ∉ before := fun a ha hmem => by
    rw [hends a hmem] at ha
    cases ha
  have hfresh : ∀ c f, Action.emit (.error c f) ∉ log ++ before := by
    intro c f hmem
    rcases List.mem_append.mp hmem with hl | hb
    · exact hnot ⟨_, hl, rfl⟩
    · exact herror c f hb
  refine ⟨?_, ?_, ?_, ?_, ?_, ?_, ?_⟩
  · rw [← List.append_assoc]
    exact History.lawful_concat.mpr ⟨hbefore, hfresh⟩
  · simp [Fsm.terminate, SessionState.isTerminal, Action.ending]
  · simp [Fsm.terminate]
  · simp only [Fsm.terminate, List.mem_append, List.mem_singleton,
      hother (.emit .ready) rfl, hresidency]
    simpa using h.ready
  · simp only [Fsm.terminate, List.mem_append, List.mem_singleton, hother (.emit .loading) rfl,
      hresidency]
    simpa using h.loading
  · intro hcontra
    cases hcontra
  · exact ⟨code, failure, rfl, Or.inl (by simp [Fsm.terminate])⟩

theorem fail (h : Good inputs log s) (hlive : s.session.isTerminal = false) {before : List Action}
    (hbefore : History.Lawful Allowed (log ++ before)) (hends : ∀ a ∈ before, a.ending = true)
    (herror : ∀ c f, .emit (.error c f) ∉ before) (code : String) (failure : Failure) :
    Good inputs (log ++ (before ++ (s.fail code failure).2)) (s.fail code failure).1 :=
  h.terminate hlive (show ({ s with captureFault := none } : Fsm).residency = s.residency from rfl)
    hbefore hends herror code _

/-! ### The handlers -/

theorem onAudio (h : Good inputs log s) (chunk : PcmChunk) :
    Good inputs (log ++ (s.onAudio chunk).2) (s.onAudio chunk).1 := by
  rw [Fsm.onAudio]
  split_ifs with hgate
  · obtain ⟨hactive, -⟩ : s.session = .active ∧ s.residency = .resident := of_decide_eq_true hgate
    have hnot := h.not_over (by rw [hactive]; rfl)
    refine ⟨History.lawful_concat.mpr ⟨h.lawful, fun hmem => h.finish hmem hactive,
      hnot⟩, ?_, ?_, ?_,
      ?_, ?_, verdict_of_live (by rw [hactive]; rfl)⟩
    · simp [Action.ending, h.finished]
    · simpa using h.finish
    · simpa using h.ready
    · simpa using h.loading
    · simpa using h.salvage
  · refine ⟨History.lawful_concat.mpr ⟨h.lawful, trivial⟩, ?_, ?_, ?_, ?_, ?_, ?_⟩
    · simp [Action.ending, h.finished]
    · simpa using h.finish
    · simpa using h.ready
    · simpa using h.loading
    · simpa using h.salvage
    · simpa [Verdict] using h.verdict

theorem onEndOfAudio (h : Good inputs log s) :
    Good inputs (log ++ s.onEndOfAudio.2) s.onEndOfAudio.1 := by
  rw [Fsm.onEndOfAudio]
  split_ifs with hactive
  · have hnot := h.not_over (by rw [hactive]; rfl)
    refine ⟨History.lawful_concat.mpr ⟨h.lawful, fun hmem => h.finish hmem hactive,
      hnot⟩, ?_, ?_, ?_,
      ?_, ?_, trivial⟩
    · have hover := h.finished
      rw [hactive] at hover
      simpa [Action.ending, SessionState.isTerminal] using hover
    · simp
    · simpa using h.ready
    · simpa using h.loading
    · intro _ hnone fault
      simpa using h.salvage (by rw [hactive]; rfl) hnone fault
  · rwa [List.append_nil]

/-- The two inputs that abort the backend session and are told by nothing else. -/
theorem sendAbort (h : Good inputs log s) (hlive : s.session.isTerminal = false) {s' : Fsm}
    (hterminal : s'.session.isTerminal = true) (hresidency : s'.residency = s.residency)
    (hverdict : Verdict inputs (log ++ [.sendAbort]) s') :
      Good inputs (log ++ [.sendAbort]) s' := by
  refine ⟨History.lawful_concat.mpr ⟨h.lawful, h.not_over hlive⟩, ?_, ?_, ?_, ?_, ?_, hverdict⟩
  · simp [Action.ending, hterminal]
  · intro _ hactive
    rw [hactive] at hterminal
    cases hterminal
  · simpa [hresidency] using h.ready
  · simpa [hresidency] using h.loading
  · intro hcontra
    rw [hterminal] at hcontra
    cases hcontra

theorem onAbort (h : Good inputs log s) :
    Good (inputs ++ [.abort]) (log ++ s.onAbort.2) s.onAbort.1 := by
  have h' := h.mono [.abort]
  rw [Fsm.onAbort]
  split_ifs with hterminal
  · rwa [List.append_nil]
  · exact h'.sendAbort (by simpa using hterminal) rfl rfl ⟨by simp, by simp⟩

theorem onCaptureFailed (h : Good inputs log s) (fault : Failure) :
    Good (inputs ++ [.captureFailed fault]) (log ++ (s.onCaptureFailed fault).2)
      (s.onCaptureFailed fault).1 := by
  have h' := h.mono [.captureFailed fault]
  rw [Fsm.onCaptureFailed]
  split_ifs with hterminal
  · rwa [List.append_nil]
  · exact h'.sendAbort (by simpa using hterminal) rfl rfl
      ⟨_, _, rfl, Or.inr ⟨rfl, by simp, by simp⟩⟩

theorem onCaptureLost (h : Good inputs log s) (fault : Failure) :
    Good inputs (log ++ (s.onCaptureLost fault).2) (s.onCaptureLost fault).1 := by
  rw [Fsm.onCaptureLost]
  split_ifs with hskip
  · rwa [List.append_nil]
  · obtain ⟨hlive, -⟩ := not_or.mp hskip
    rw [Bool.not_eq_true] at hlive
    refine ⟨History.lawful_concat.mpr ⟨h.lawful, h.not_over hlive⟩, ?_, ?_, ?_, ?_, ?_,
      verdict_of_live hlive⟩
    · simp [Action.ending, h.finished]
    · simpa using h.finish
    · simpa using h.ready
    · simpa using h.loading
    · intro _ hnone
      cases hnone

theorem onPhase (h : Good inputs log s) (hlive : s.session.isTerminal = false) (phase : String) :
    Good inputs (log ++ (s.onPhase phase).2) (s.onPhase phase).1 := by
  rw [Fsm.onPhase]
  split_ifs with _ hunloaded
  · -- loading, told while nothing is known of the model
    have hnot := h.not_over hlive
    have hloading : Action.emit .loading ∉ log := fun hmem => h.loading hmem hunloaded
    have hready : Action.emit .ready ∉ log := by
      rw [h.ready, hunloaded]
      decide
    refine ⟨History.lawful_concat.mpr ⟨h.lawful, hloading, hready, hnot⟩, ?_, ?_, ?_, ?_, ?_,
      verdict_of_live hlive⟩
    · simp [Action.ending, h.finished]
    · simpa using h.finish
    · simpa using hready
    · simp
    · intro _ hnone fault
      simpa using h.salvage hlive hnone fault
  · rwa [List.append_nil]
  · exact h.markResident hlive
  · have hlive' : s.markResident.1.session.isTerminal = false := by rwa [markResident_session]
    have hemit := (h.markResident hlive).emit hlive'
      (show (Action.emit .transcribing).advisory from rfl)
    rwa [List.append_assoc] at hemit
  · rwa [List.append_nil]

theorem onPhase_session (s : Fsm) (phase : String) : (s.onPhase phase).1.session = s.session := by
  rw [Fsm.onPhase]
  split_ifs
  · rfl
  · rfl
  · exact markResident_session s
  · exact markResident_session s
  · rfl

theorem onProgress (h : Good inputs log s) (hlive : s.session.isTerminal = false) (p : Progress) :
    Good inputs (log ++ (s.onProgress tr p).2) (s.onProgress tr p).1 := by
  have hlive' : (s.onPhase p.phase).1.session.isTerminal = false := by rwa [onPhase_session]
  have hall : ∀ a ∈ Fsm.advisories tr p, a.advisory = true := by
    intro a ha
    rw [Fsm.advisories, List.mem_append] at ha
    rcases ha with ha | ha
    all_goals
      rw [Option.mem_toList, Option.map_eq_some_iff] at ha
      obtain ⟨_, -, rfl⟩ := ha
      rfl
  have hemits := emits hlive' _ (h.onPhase hlive p.phase) hall
  rwa [List.append_assoc] at hemits

theorem onFinal (h : Good inputs log s) (hlive : s.session.isTerminal = false)
    (f : TranscriptionFinal) : Good inputs (log ++ (s.onFinal f).2) (s.onFinal f).1 := by
  have hlive' : s.markResident.1.session.isTerminal = false := by rwa [markResident_session]
  have hemit := fun a ha => (h.markResident hlive).emit hlive' (a := a) ha
  simp only [List.append_assoc] at hemit
  rw [Fsm.onFinal]
  cases f.disposition with
  | committed => exact hemit _ rfl
  | unstable => exact hemit _ rfl

theorem onDone (h : Good inputs log s) (hlive : s.session.isTerminal = false)
    (d : TranscriptionFinal) : Good inputs (log ++ (s.onDone d).2) (s.onDone d).1 := by
  have hnot := h.not_over hlive
  have hlawful : History.Lawful Allowed (log ++ [.emit (.done d.text)]) :=
    History.lawful_concat.mpr ⟨h.lawful, hnot⟩
  rw [Fsm.onDone]
  dsimp only
  split
  · -- the transcript first, then the fault it was salvaged from
    next fault hfault =>
    exact h.terminate hlive
      (show ({ s with transcript := d.text, captureFault := none } : Fsm).residency
        = s.residency from rfl)
      hlawful (by simp [Action.ending]) (by simp) "capture_failed" fault
  · next hnone =>
    refine ⟨hlawful, ?_, ?_, ?_, ?_, ?_, ?_⟩
    · simp [Action.ending, SessionState.isTerminal]
    · simp
    · simpa using h.ready
    · simpa using h.loading
    · intro hcontra
      cases hcontra
    · refine ⟨by simp, fun fault => ?_⟩
      simpa using h.salvage hlive hnone fault

theorem onStalled (h : Good inputs log s) :
    Good inputs (log ++ (s.onStalled tr).2) (s.onStalled tr).1 := by
  rw [Fsm.onStalled]
  split_ifs with hterminal
  · rwa [List.append_nil]
  · rw [Bool.not_eq_true] at hterminal
    have hlawful : History.Lawful Allowed (log ++ [.sendAbort]) :=
      History.lawful_concat.mpr ⟨h.lawful, h.not_over hterminal⟩
    exact h.fail hterminal hlawful (by simp [Action.ending]) (by simp) _ _

theorem onBackendClosed (h : Good inputs log s) (error : Option String) :
    Good inputs (log ++ (s.onBackendClosed tr error).2) (s.onBackendClosed tr error).1 := by
  rw [Fsm.onBackendClosed]
  split_ifs with hterminal
  · rwa [List.append_nil]
  · rw [Bool.not_eq_true] at hterminal
    exact h.fail hterminal (by rw [List.append_nil]; exact h.lawful) (by simp) (by simp) _ _

theorem onBackend (h : Good inputs log s) (event : TranscriptionEvent) :
    Good inputs (log ++ (s.onBackend tr event).2) (s.onBackend tr event).1 := by
  rw [Fsm.onBackend.eq_def]
  split_ifs with hterminal
  · rwa [List.append_nil]
  · rw [Bool.not_eq_true] at hterminal
    cases event with
    | progress p => exact h.onProgress hterminal p
    | final f => exact h.onFinal hterminal f
    | done d => exact h.onDone hterminal d
    | error e =>
      exact h.fail hterminal (by rw [List.append_nil]; exact h.lawful) (by simp) (by simp) _ _

end Good

section

variable {tr : String → String} {inputs : List Input} {log : List Action} {s : Fsm}

/-! ## Runs -/

/-- **One input** keeps the log and the state in agreement. -/
theorem onInput_good (tr : String → String) (h : Good inputs log s) (input : Input) :
    Good (inputs ++ [input]) (log ++ (s.onInput tr input).2) (s.onInput tr input).1 := by
  cases input with
  | audio chunk => exact (h.mono _).onAudio chunk
  | endOfAudio => exact (h.mono _).onEndOfAudio
  | abort => exact h.onAbort
  | captureFailed fault => exact h.onCaptureFailed fault
  | captureLost fault => exact (h.mono _).onCaptureLost fault
  | backend event => exact (h.mono _).onBackend event
  | backendClosed error => exact (h.mono _).onBackendClosed error
  | stalled => exact (h.mono _).onStalled

/-- **A run** keeps them in agreement. -/
theorem run_good (more : List Input) :
    ∀ {inputs log s}, Good inputs log s →
      Good (inputs ++ more) (log ++ (s.run tr more).2) (s.run tr more).1 := by
  induction more with
  | nil =>
    intro inputs log s h
    rwa [List.append_nil, Fsm.run, List.append_nil]
  | cons input rest ih =>
    intro inputs log s h
    have hrest := ih (onInput_good tr h input)
    rwa [List.append_assoc, List.append_assoc] at hrest

theorem run_cons (s : Fsm) (input : Input) (rest : List Input) :
    s.run tr (input :: rest) = (((s.onInput tr input).1.run tr rest).1,
      (s.onInput tr input).2 ++ ((s.onInput tr input).1.run tr rest).2) := rfl

theorem run_append (before after : List Input) :
    ∀ s : Fsm, s.run tr (before ++ after) =
      (((s.run tr before).1.run tr after).1,
        (s.run tr before).2 ++ ((s.run tr before).1.run tr after).2) := by
  induction before with
  | nil => exact fun s => rfl
  | cons input rest ih =>
    intro s
    rw [List.cons_append, run_cons, run_cons, ih, List.append_assoc]

/-- A terminal state is left alone, whatever comes in. -/
theorem onInput_of_terminal (tr : String → String)
    (hterminal : s.session.isTerminal = true) (input : Input) :
    (s.onInput tr input).1 = s ∧ ∀ a ∈ (s.onInput tr input).2, a = .emit .audioDropped := by
  have hnot : s.session ≠ .active := by
    intro hactive
    rw [hactive] at hterminal
    cases hterminal
  cases input with
  | audio chunk =>
    rw [Fsm.onInput, Fsm.onAudio, Fsm.acceptsAudio, if_neg (by simp [hnot])]
    simp
  | endOfAudio => simp [Fsm.onInput, Fsm.onEndOfAudio, hnot]
  | abort => simp [Fsm.onInput, Fsm.onAbort, hterminal]
  | captureFailed fault => simp [Fsm.onInput, Fsm.onCaptureFailed, hterminal]
  | captureLost fault => simp [Fsm.onInput, Fsm.onCaptureLost, hterminal]
  | backend event => simp [Fsm.onInput, Fsm.onBackend, hterminal]
  | backendClosed error => simp [Fsm.onInput, Fsm.onBackendClosed, hterminal]
  | stalled => simp [Fsm.onInput, Fsm.onStalled, hterminal]

theorem run_of_terminal (tr : String → String) (hterminal : s.session.isTerminal = true)
    (more : List Input) :
    (s.run tr more).1 = s ∧ ∀ a ∈ (s.run tr more).2, a = .emit .audioDropped := by
  induction more with
  | nil => simp [Fsm.run]
  | cons input rest ih =>
    obtain ⟨hsame, hout⟩ := onInput_of_terminal tr hterminal input
    rw [run_cons, hsame]
    refine ⟨ih.1, fun a ha => ?_⟩
    rcases List.mem_append.mp ha with hnow | hlater
    · exact hout a hnow
    · exact ih.2 a hlater

/-- How far the model has come. -/
def Residency.rank : Residency → ℕ
  | .unloaded => 0
  | .loading => 1
  | .resident => 2

theorem rank_le_markResident (s : Fsm) : s.residency.rank ≤ s.markResident.1.residency.rank := by
  rw [Fsm.markResident]
  split_ifs
  · exact le_rfl
  · show s.residency.rank ≤ 2
    cases s.residency <;> decide

theorem rank_le_onPhase (s : Fsm) (phase : String) :
    s.residency.rank ≤ (s.onPhase phase).1.residency.rank := by
  rw [Fsm.onPhase]
  split_ifs with _ hunloaded
  · rw [hunloaded]
    exact Nat.zero_le _
  · exact le_rfl
  · exact rank_le_markResident s
  · exact rank_le_markResident s
  · exact le_rfl

/-- The residency never goes back. -/
theorem rank_le_onInput (s : Fsm) (input : Input) :
    s.residency.rank ≤ (s.onInput tr input).1.residency.rank := by
  cases input with
  | audio chunk =>
    rw [Fsm.onInput, Fsm.onAudio]
    split_ifs <;> exact le_rfl
  | endOfAudio =>
    rw [Fsm.onInput, Fsm.onEndOfAudio]
    split_ifs <;> exact le_rfl
  | abort =>
    rw [Fsm.onInput, Fsm.onAbort]
    split_ifs <;> exact le_rfl
  | captureFailed fault =>
    rw [Fsm.onInput, Fsm.onCaptureFailed]
    split_ifs <;> exact le_rfl
  | captureLost fault =>
    rw [Fsm.onInput, Fsm.onCaptureLost]
    split_ifs <;> exact le_rfl
  | backend event =>
    rw [Fsm.onInput, Fsm.onBackend.eq_def]
    split_ifs
    · exact le_rfl
    · cases event with
      | progress p => exact rank_le_onPhase s p.phase
      | final f =>
        show _ ≤ (s.onFinal f).1.residency.rank
        rw [Fsm.onFinal]
        cases f.disposition <;> exact rank_le_markResident s
      | done d =>
        show _ ≤ (s.onDone d).1.residency.rank
        rw [Fsm.onDone]
        cases s.captureFault <;> exact le_rfl
      | error e => exact le_rfl
  | backendClosed error =>
    rw [Fsm.onInput, Fsm.onBackendClosed]
    split_ifs <;> exact le_rfl
  | stalled =>
    rw [Fsm.onInput, Fsm.onStalled]
    split_ifs <;> exact le_rfl

theorem rank_le_run (more : List Input) :
    ∀ s : Fsm, s.residency.rank ≤ (s.run tr more).1.residency.rank := by
  induction more with
  | nil => exact fun s => le_rfl
  | cons input rest ih => exact fun s => (rank_le_onInput s input).trans (ih _)

/-- Only the client's own input sends anything up, and only in an active session. -/
theorem sends_mem {input : Input} {a : Action} (h : a ∈ (s.onInput tr input).2)
    (ha : a.sends = true) :
    (∃ chunk, input = .audio chunk ∧ a = .forwardAudio chunk ∧
      s.session = .active ∧ s.residency = .resident) ∨
    (input = .endOfAudio ∧ a = .sendFinish ∧ s.session = .active) := by
  have hmark : ∀ s : Fsm, a ∉ s.markResident.2 := by
    intro s hmem
    rw [Fsm.markResident] at hmem
    split_ifs at hmem
    · cases hmem
    · rw [List.mem_singleton.mp hmem] at ha
      cases ha
  have hphase : ∀ (s : Fsm) phase, a ∉ (s.onPhase phase).2 := by
    intro s phase hmem
    rw [Fsm.onPhase] at hmem
    split_ifs at hmem
    · rw [List.mem_singleton.mp hmem] at ha
      cases ha
    · cases hmem
    · exact hmark s hmem
    · rcases List.mem_append.mp hmem with hmem | hmem
      · exact hmark s hmem
      · rw [List.mem_singleton.mp hmem] at ha
        cases ha
    · cases hmem
  have hemit : ∀ event, a ≠ .emit event := by
    rintro event rfl
    cases ha
  have habort : a ≠ .sendAbort := by
    rintro rfl
    cases ha
  cases input with
  | audio chunk =>
    rw [Fsm.onInput, Fsm.onAudio] at h
    split_ifs at h with hgate
    · exact Or.inl ⟨chunk, rfl, List.mem_singleton.mp h, of_decide_eq_true hgate⟩
    · exact absurd (List.mem_singleton.mp h) (hemit _)
  | endOfAudio =>
    rw [Fsm.onInput, Fsm.onEndOfAudio] at h
    split_ifs at h with hactive
    · exact Or.inr ⟨rfl, List.mem_singleton.mp h, hactive⟩
    · cases h
  | abort =>
    rw [Fsm.onInput, Fsm.onAbort] at h
    split_ifs at h <;> simp [habort] at h
  | captureFailed fault =>
    rw [Fsm.onInput, Fsm.onCaptureFailed] at h
    split_ifs at h <;> simp [habort] at h
  | captureLost fault =>
    rw [Fsm.onInput, Fsm.onCaptureLost] at h
    split_ifs at h <;> simp [hemit] at h
  | backend event =>
    rw [Fsm.onInput, Fsm.onBackend.eq_def] at h
    split_ifs at h
    · cases h
    · cases event with
      | progress p =>
        have hadvisory : a ∉ Fsm.advisories tr p := by
          intro hmem
          simp [Fsm.advisories, Option.mem_toList, hemit, eq_comm] at hmem
        exact absurd (List.mem_append.mp h) (not_or.mpr ⟨hphase s p.phase, hadvisory⟩)
      | final f =>
        simp only [Fsm.onFinal] at h
        cases hd : f.disposition <;> simp [hd, hmark, hemit] at h
      | done d =>
        simp only [Fsm.onDone] at h
        cases hf : s.captureFault <;> simp [hf, Fsm.terminate, hemit] at h
      | error e => simp [Fsm.onError, Fsm.fail, Fsm.terminate, hemit] at h
  | backendClosed error =>
    rw [Fsm.onInput, Fsm.onBackendClosed] at h
    split_ifs at h <;> simp [Fsm.fail, Fsm.terminate, hemit] at h
  | stalled =>
    rw [Fsm.onInput, Fsm.onStalled] at h
    split_ifs at h <;> simp [Fsm.fail, Fsm.terminate, hemit, habort] at h

/-! ## Whole-run safety -/

/-- The outcome that is reported is the end the session came to, and its fault. -/
def Told (inputs : List Input) (log : List Action) (s : Fsm) : Option SessionOutcome → Prop
  | none => s.session.isTerminal = false
  | some (.completed transcript) => s.session = .done ∧ .emit (.done transcript) ∈ log ∧
      ∀ fault, .emit (.captureLost fault) ∉ log
  | some (.failed code failure) => s.session = .failed ∧ s.failure = some (code, failure) ∧
      (.emit (.error code failure) ∈ log ∨
        code = "capture_failed" ∧ .captureFailed failure ∈ inputs ∧ .sendAbort ∈ log)
  | some .aborted => s.session = .aborted ∧ .abort ∈ inputs ∧ .sendAbort ∈ log

theorem told (h : Good inputs log s) : Told inputs log s (s.outcome tr) := by
  have hv := h.verdict
  unfold Verdict at hv
  unfold Fsm.outcome
  cases hsession : s.session <;> simp only [hsession] at hv ⊢
  · simp [Told, hsession, SessionState.isTerminal]
  · simp [Told, hsession, SessionState.isTerminal]
  · exact ⟨hsession, hv⟩
  · obtain ⟨code, failure, hf, hcause⟩ := hv
    rw [hf]
    exact ⟨hsession, hf, hcause⟩
  · exact ⟨hsession, hv⟩

/-- What a run of the machine can and cannot do. -/
structure SafeRun (tr : String → String) (inputs : List Input) : Prop where
  /-- Every action is allowed by the ones before it: no audio after a finish, an abort or a
  terminal, no text after the transcript, loading before ready. -/
  lawful : History.Lawful Allowed (Fsm.run tr {} inputs).2
  finish_once : (Fsm.run tr {} inputs).2.count .sendFinish ≤ 1
  ready_once : (Fsm.run tr {} inputs).2.count (.emit .ready) ≤ 1
  loading_once : (Fsm.run tr {} inputs).2.count (.emit .loading) ≤ 1
  done_once : (Fsm.run tr {} inputs).2.countP Action.isDone ≤ 1
  /-- Audio is forwarded only while the session is active and the model resident. -/
  gate : ∀ past input later chunk, inputs = past ++ input :: later →
    .forwardAudio chunk ∈ ((Fsm.run tr {} past).1.onInput tr input).2 →
    (Fsm.run tr {} past).1.session = .active ∧ (Fsm.run tr {} past).1.residency = .resident
  residency_mono : ∀ past later, inputs = past ++ later →
    (Fsm.run tr {} past).1.residency.rank ≤ (Fsm.run tr {} inputs).1.residency.rank
  /-- Once terminal the state is left alone, and only dropped audio is told. -/
  terminal : ∀ past later, inputs = past ++ later →
    (Fsm.run tr {} past).1.session.isTerminal = true →
    (Fsm.run tr {} inputs).1 = (Fsm.run tr {} past).1 ∧
      ∃ out, (Fsm.run tr {} inputs).2 = (Fsm.run tr {} past).2 ++ out ∧
        ∀ a ∈ out, a = .emit .audioDropped
  outcome : Told inputs (Fsm.run tr {} inputs).2 (Fsm.run tr {} inputs).1
    ((Fsm.run tr {} inputs).1.outcome tr)

/-- **Whole-run safety**, for every sequence of inputs. -/
theorem fsm_safe (tr : String → String) (inputs : List Input) : SafeRun tr inputs := by
  have hgood : Good inputs (Fsm.run tr {} inputs).2 (Fsm.run tr {} inputs).1 :=
    run_good inputs Good.init
  have hlawful := hgood.lawful
  refine ⟨hlawful, ?_, ?_, ?_, ?_, ?_, ?_, ?_, told hgood⟩
  · exact hlawful.count_le_one fun past h => h.1
  · exact hlawful.count_le_one fun past h => h.1
  · exact hlawful.count_le_one fun past h => h.1
  · refine hlawful.countP_le_one fun past a ha hpast b hb hbdone => ?_
    -- a transcript is allowed in a session that is not over, which an earlier one has ended
    have hdone : ∀ a : Action, a.isDone = true → ∃ text, a = .emit (.done text) := by
      intro a ha
      unfold Action.isDone at ha
      split at ha
      · exact ⟨_, rfl⟩
      · cases ha
    obtain ⟨text, rfl⟩ := hdone a ha
    obtain ⟨text', rfl⟩ := hdone b hbdone
    exact hpast ⟨_, hb, rfl⟩
  · intro past input later chunk _ hmem
    rcases sends_mem hmem rfl with ⟨-, -, -, hgate⟩ | ⟨-, hfinish, -⟩
    · exact hgate
    · cases hfinish
  · rintro past later rfl
    rw [run_append]
    exact rank_le_run later _
  · rintro past later rfl hterminal
    rw [run_append]
    obtain ⟨hsame, hout⟩ := run_of_terminal tr hterminal later
    exact ⟨hsame, _, rfl, hout⟩

/-! ## A capture fault is told -/

/-- How an input that ends a session whose capture was lost to `fault` tells of it. -/
def Reports (fault : Failure) : Input → SessionOutcome → Prop
  | .backend (.done _), .failed code failure => code = "capture_failed" ∧ failure = fault
  | .backend (.error e), .failed code failure =>
    code = e.code ∧ failure.detail = s!"{e.message} ({fault.detail})"
  | .stalled, .failed code failure => code = "backend_unresponsive" ∧
    failure.detail = s!"the transcription service stopped responding ({fault.detail})"
  | .backendClosed error, .failed code failure => code = "connection_closed" ∧
    failure.detail = error.getD "backend connection closed before the session completed"
      ++ " (" ++ fault.detail ++ ")"
  | _, _ => False

/-- Being salvaged: live, with the fault in hand. -/
def Salvaging (fault : Failure) (s : Fsm) : Prop :=
  s.session.isTerminal = false ∧ s.captureFault = some fault

/-- An input leaves the salvage going, or ends it and tells of the fault. -/
theorem salvaging_onInput (tr : String → String) {fault : Failure} (h : Salvaging fault s)
    {input : Input}
    (habort : input ≠ .abort) (hfailed : ∀ f, input ≠ .captureFailed f) :
    Salvaging fault (s.onInput tr input).1 ∨
      ((s.onInput tr input).1.session.isTerminal = true ∧
        ∀ o, (s.onInput tr input).1.outcome tr = some o → Reports fault input o) := by
  obtain ⟨hlive, hfault⟩ := h
  have hnot : ¬ s.session.isTerminal = true := by rw [hlive]; decide
  have hmark : ∀ s : Fsm, Salvaging fault s → Salvaging fault s.markResident.1 := by
    intro s h
    rw [Fsm.markResident]
    split_ifs <;> exact h
  -- a failure ends the session with the fault in its detail
  have hfail : ∀ code failure o, (s.fail code failure).1.outcome tr = some o →
      o = .failed code { failure with detail := s!"{failure.detail} ({fault.detail})" } := by
    intro code failure o ho
    rw [Fsm.fail, hfault] at ho
    exact (Option.some.inj ho).symm
  cases input with
  | audio chunk =>
    left
    rw [Fsm.onInput, Fsm.onAudio]
    split_ifs <;> exact ⟨hlive, hfault⟩
  | endOfAudio =>
    left
    rw [Fsm.onInput, Fsm.onEndOfAudio]
    split_ifs
    · exact ⟨rfl, hfault⟩
    · exact ⟨hlive, hfault⟩
  | abort => exact absurd rfl habort
  | captureFailed f => exact absurd rfl (hfailed f)
  | captureLost f =>
    left
    rw [Fsm.onInput, Fsm.onCaptureLost, if_pos (Or.inr (by rw [hfault]; rfl))]
    exact ⟨hlive, hfault⟩
  | backend event =>
    rw [Fsm.onInput, Fsm.onBackend.eq_def, if_neg hnot]
    cases event with
    | progress p =>
      left
      show Salvaging fault (s.onPhase p.phase).1
      rw [Fsm.onPhase]
      split_ifs
      · exact ⟨hlive, hfault⟩
      · exact ⟨hlive, hfault⟩
      · exact hmark s ⟨hlive, hfault⟩
      · exact hmark s ⟨hlive, hfault⟩
      · exact ⟨hlive, hfault⟩
    | final f =>
      left
      show Salvaging fault (s.onFinal f).1
      rw [Fsm.onFinal]
      cases f.disposition <;> exact hmark s ⟨hlive, hfault⟩
    | done d =>
      right
      refine ⟨by simp only [Fsm.onDone, hfault]; rfl, fun o ho => ?_⟩
      simp only [Fsm.onDone, hfault] at ho
      obtain rfl := Option.some.inj ho
      exact ⟨rfl, rfl⟩
    | error e =>
      right
      refine ⟨rfl, fun o ho => ?_⟩
      rw [hfail _ _ o ho]
      exact ⟨rfl, rfl⟩
  | backendClosed error =>
    right
    rw [Fsm.onInput, Fsm.onBackendClosed, if_neg hnot]
    refine ⟨rfl, fun o ho => ?_⟩
    rw [hfail _ _ o ho]
    exact ⟨rfl, rfl⟩
  | stalled =>
    right
    rw [Fsm.onInput, Fsm.onStalled, if_neg hnot]
    refine ⟨rfl, fun o ho => ?_⟩
    rw [hfail _ _ o ho]
    exact ⟨rfl, rfl⟩

/-- A salvage that comes to an outcome has told of its fault. Induction on what follows the loss. -/
theorem salvaging_run {fault : Failure} (later : List Input)
    (habort : ∀ input ∈ later, input ≠ .abort)
    (hfailed : ∀ input ∈ later, ∀ f, input ≠ .captureFailed f) :
    ∀ {s : Fsm}, Salvaging fault s → ∀ o, (s.run tr later).1.outcome tr = some o →
      ∃ mid input rest, later = mid ++ input :: rest ∧
        (s.run tr mid).1.session.isTerminal = false ∧ Reports fault input o := by
  induction later with
  | nil =>
    intro s h o ho
    have hterminal := h.1
    unfold Fsm.outcome Fsm.run at ho
    cases hsession : s.session <;> simp [hsession, SessionState.isTerminal] at ho hterminal
  | cons input rest ih =>
    intro s h o ho
    rw [run_cons] at ho
    rcases salvaging_onInput tr h (habort input List.mem_cons_self)
      (hfailed input List.mem_cons_self) with hstill | ⟨hterminal, hends⟩
    · obtain ⟨mid, last, rest', hrest, hlive, hreports⟩ := ih
        (fun i hi => habort i (List.mem_cons_of_mem _ hi))
        (fun i hi => hfailed i (List.mem_cons_of_mem _ hi)) hstill o ho
      exact ⟨input :: mid, last, rest', by rw [hrest, List.cons_append], hlive, hreports⟩
    · -- the session is over, so what follows changes nothing
      rw [(run_of_terminal tr hterminal rest).1] at ho
      exact ⟨[], input, rest, rfl, h.1, hends o ho⟩

/-- Only a lost capture leaves a fault to tell. -/
theorem captureFault_onInput {input : Input} (hinput : ∀ f, input ≠ .captureLost f)
    (hnone : s.captureFault = none) : (s.onInput tr input).1.captureFault = none := by
  have hmark : ∀ s : Fsm, s.captureFault = none → s.markResident.1.captureFault = none := by
    intro s hnone
    rw [Fsm.markResident]
    split_ifs <;> exact hnone
  cases input with
  | audio chunk =>
    rw [Fsm.onInput, Fsm.onAudio]
    split_ifs <;> exact hnone
  | endOfAudio =>
    rw [Fsm.onInput, Fsm.onEndOfAudio]
    split_ifs <;> exact hnone
  | abort =>
    rw [Fsm.onInput, Fsm.onAbort]
    split_ifs <;> exact hnone
  | captureFailed f =>
    rw [Fsm.onInput, Fsm.onCaptureFailed]
    split_ifs <;> exact hnone
  | captureLost f => exact absurd rfl (hinput f)
  | backend event =>
    rw [Fsm.onInput, Fsm.onBackend.eq_def]
    split_ifs
    · exact hnone
    · cases event with
      | progress p =>
        show (s.onPhase p.phase).1.captureFault = none
        rw [Fsm.onPhase]
        split_ifs
        · exact hnone
        · exact hnone
        · exact hmark s hnone
        · exact hmark s hnone
        · exact hnone
      | final f =>
        show (s.onFinal f).1.captureFault = none
        rw [Fsm.onFinal]
        cases f.disposition <;> exact hmark s hnone
      | done d => simp only [Fsm.onDone, hnone]
      | error e => rfl
  | backendClosed error =>
    rw [Fsm.onInput, Fsm.onBackendClosed]
    split_ifs
    · exact hnone
    · rfl
  | stalled =>
    rw [Fsm.onInput, Fsm.onStalled]
    split_ifs
    · exact hnone
    · rfl

theorem captureFault_run (past : List Input) (hpast : ∀ input ∈ past, ∀ f, input ≠ .captureLost f) :
    ∀ s : Fsm, s.captureFault = none → (s.run tr past).1.captureFault = none := by
  induction past with
  | nil => exact fun s hnone => hnone
  | cons input rest ih =>
    intro s hnone
    rw [run_cons]
    exact ih (fun i hi => hpast i (List.mem_cons_of_mem _ hi)) _
      (captureFault_onInput (hpast input List.mem_cons_self) hnone)

/-- **A capture fault is never swallowed.** Where capture is lost in a live session, which is then
neither aborted nor failed by another capture fault, the outcome is a failure that carries the first
fault: as itself where the backend completes its transcript, in the detail where the backend fails,
stalls or closes. -/
theorem captureLost_reported (tr : String → String) (past later : List Input) (fault : Failure)
    (hlive : (Fsm.run tr {} past).1.session.isTerminal = false)
    (hfirst : ∀ input ∈ past, ∀ f, input ≠ .captureLost f)
    (habort : ∀ input ∈ later, input ≠ .abort)
    (hfailed : ∀ input ∈ later, ∀ f, input ≠ .captureFailed f) :
    ∀ o, (Fsm.run tr {} (past ++ .captureLost fault :: later)).1.outcome tr = some o →
      ∃ mid input rest, later = mid ++ input :: rest ∧
        (Fsm.run tr {} (past ++ .captureLost fault :: mid)).1.session.isTerminal = false ∧
        Reports fault input o := by
  intro o ho
  have hnone : (Fsm.run tr {} past).1.captureFault = none := captureFault_run past hfirst {} rfl
  have hlost : Salvaging fault ((Fsm.run tr {} past).1.onInput tr (.captureLost fault)).1 := by
    rw [Fsm.onInput, Fsm.onCaptureLost, if_neg (by rw [hlive, hnone]; decide)]
    exact ⟨hlive, rfl⟩
  simp only [run_append, run_cons] at ho ⊢
  exact salvaging_run later habort hfailed hlost o ho

/-- The device vanishes with a word said, and the backend completes its transcript. -/
theorem captureLost_reported_done :
    ∃ mid input rest, [Input.endOfAudio, .backend (.done ⟨"hi", .committed⟩)]
      = mid ++ input :: rest ∧
      (Fsm.run id {} ([] ++ .captureLost ⟨"Some audio lost",
        "device vanished"⟩ :: mid)).1.session.isTerminal
        = false ∧
      Reports ⟨"Some audio lost", "device vanished"⟩ input
        (.failed "capture_failed" ⟨"Some audio lost", "device vanished"⟩) :=
  captureLost_reported id [] [.endOfAudio, .backend (.done ⟨"hi", .committed⟩)]
    ⟨"Some audio lost", "device vanished"⟩ rfl (by simp) (by simp) (by simp) _ rfl

end

end Orchestrator

end Myna
