import Myna.Client.Capture
import Myna.Lib.History

/-!
# Myna — the session state machine of the orchestrator (`myna_orchestrator::fsm`)

`Fsm.onInput` takes one input and returns the next state and the actions the driver performs. Two
regions move independently: the session towards a terminal state, the residency of the model
towards `resident`. `tr` translates a headline; nothing depends on what it returns.
-/

namespace Myna

namespace Orchestrator

/-! ## Events -/

/-- A failure as the user is told it and as a log records it. -/
structure Failure where
  headline : String
  detail : String
deriving DecidableEq

inductive Disposition
  | committed
  | unstable
deriving DecidableEq

structure Progress where
  snippet : Option String := none
  phase : String
  warning : Option String := none
  warningCode : Option String := none

structure TranscriptionFinal where
  text : String
  disposition : Disposition := .committed

structure ErrorData where
  code : String
  message : String

inductive TranscriptionEvent
  | progress (p : Progress)
  | final (f : TranscriptionFinal)
  | done (d : TranscriptionFinal)
  | error (e : ErrorData)

def PHASE_PREPARING : String := "preparing"
def PHASE_READY : String := "ready"
def PHASE_TRANSCRIBING : String := "transcribing"
def WARNING_GPU_UNAVAILABLE : String := "gpu_unavailable"
def WARNING_MEMORY_PRESSURE : String := "memory_pressure"

/-! ## The states, inputs and actions -/

/-- The per-connection session track. -/
inductive SessionState
  | active
  | finalizing
  | done
  | failed
  | aborted
deriving DecidableEq

def SessionState.isTerminal : SessionState → Bool
  | .done | .failed | .aborted => true
  | .active | .finalizing => false

/-- The model-residency track. -/
inductive Residency
  | unloaded
  | loading
  | resident
deriving DecidableEq

/-- What the machine surfaces outward. -/
inductive OrchestratorEvent
  | loading
  | ready
  | transcribing
  | snippet (text : String)
  | final (text : String)
  | unstable (text : String)
  | done (text : String)
  | error (code : String) (failure : Failure)
  | audioDropped
  | captureLost (fault : Failure)
  | warning (code : Option String) (notice : Failure)
deriving DecidableEq

/-- A side effect the driver performs after a transition. -/
inductive Action
  | forwardAudio (chunk : PcmChunk)
  | sendFinish
  | sendAbort
  | emit (event : OrchestratorEvent)
deriving DecidableEq

inductive Input
  | audio (chunk : PcmChunk)
  | endOfAudio
  | abort
  | captureFailed (fault : Failure)
  | captureLost (fault : Failure)
  | backend (event : TranscriptionEvent)
  | backendClosed (error : Option String)
  | stalled

/-- How a completed run ended. -/
inductive SessionOutcome
  | completed (transcript : String)
  | failed (code : String) (failure : Failure)
  | aborted
deriving DecidableEq

/-- The two-region machine. -/
structure Fsm where
  session : SessionState := .active
  residency : Residency := .unloaded
  transcript : String := ""
  failure : Option (String × Failure) := none
  captureFault : Option Failure := none

namespace Failure

/-- `warning_headline`. -/
def warningHeadline (tr : String → String) (code : Option String) (text : String) : String :=
  if code = some WARNING_GPU_UNAVAILABLE then tr "Using the CPU: GPU unavailable"
  else if code = some WARNING_MEMORY_PRESSURE then tr "Dictation is slow: low memory"
  else text

end Failure

namespace Fsm

variable (tr : String → String)

/-- The accept-gate. -/
def acceptsAudio (s : Fsm) : Bool := decide (s.session = .active ∧ s.residency = .resident)

def outcome (s : Fsm) : Option SessionOutcome :=
  match s.session with
  | .done => some (.completed s.transcript)
  | .failed =>
    let (code, failure) := s.failure.getD ("internal", ⟨tr "Transcription failed", ""⟩)
    some (.failed code failure)
  | .aborted => some .aborted
  | .active | .finalizing => none

/-- Surface a failure and end the session with it. -/
def terminate (s : Fsm) (code : String) (failure : Failure) : Fsm × List Action :=
  ({ s with failure := some (code, failure), session := .failed }, [.emit (.error code failure)])

/-- Fail the session, keeping a capture fault in the detail. -/
def fail (s : Fsm) (code : String) (failure : Failure) : Fsm × List Action :=
  let failure := match s.captureFault with
    | some fault => { failure with detail := s!"{failure.detail} ({fault.detail})" }
    | none => failure
  terminate { s with captureFault := none } code failure

/-- Open the accept-gate the first time the model is seen resident. -/
def markResident (s : Fsm) : Fsm × List Action :=
  if s.residency = .resident then (s, []) else ({ s with residency := .resident }, [.emit .ready])

def onAudio (s : Fsm) (chunk : PcmChunk) : Fsm × List Action :=
  if s.acceptsAudio then (s, [.forwardAudio chunk]) else (s, [.emit .audioDropped])

def onEndOfAudio (s : Fsm) : Fsm × List Action :=
  if s.session = .active then ({ s with session := .finalizing }, [.sendFinish]) else (s, [])

def onAbort (s : Fsm) : Fsm × List Action :=
  if s.session.isTerminal then (s, []) else ({ s with session := .aborted }, [.sendAbort])

def onCaptureFailed (s : Fsm) (fault : Failure) : Fsm × List Action :=
  if s.session.isTerminal then (s, [])
  else ({ s with session := .failed, failure := some ("capture_failed", fault) }, [.sendAbort])

def onCaptureLost (s : Fsm) (fault : Failure) : Fsm × List Action :=
  if s.session.isTerminal ∨ s.captureFault.isSome then (s, [])
  else ({ s with captureFault := some fault }, [.emit (.captureLost fault)])

/-- The phase of a progress event. An unknown one changes nothing. -/
def onPhase (s : Fsm) (phase : String) : Fsm × List Action :=
  if phase = PHASE_PREPARING then
    if s.residency = .unloaded then ({ s with residency := .loading },
      [.emit .loading]) else (s, [])
  else if phase = PHASE_READY then s.markResident
  else if phase = PHASE_TRANSCRIBING then
    let (s, out) := s.markResident
    (s, out ++ [.emit .transcribing])
  else (s, [])

/-- What a progress event says besides its phase. -/
def advisories (p : Progress) : List Action :=
  (p.snippet.map fun snippet => .emit (.snippet snippet)).toList ++
    (p.warning.map fun text =>
      .emit (.warning p.warningCode ⟨Failure.warningHeadline tr p.warningCode text, text⟩)).toList

def onProgress (s : Fsm) (p : Progress) : Fsm × List Action :=
  let (s, out) := s.onPhase p.phase
  (s, out ++ advisories tr p)

def onFinal (s : Fsm) (f : TranscriptionFinal) : Fsm × List Action :=
  let (s, out) := s.markResident
  match f.disposition with
  | .committed => (s, out ++ [.emit (.final f.text)])
  | .unstable => (s, out ++ [.emit (.unstable f.text)])

def onDone (s : Fsm) (d : TranscriptionFinal) : Fsm × List Action :=
  let s := { s with transcript := d.text }
  match s.captureFault with
  | some fault =>
    let (s, out) := terminate { s with captureFault := none } "capture_failed" fault
    (s, .emit (.done d.text) :: out)
  | none => ({ s with session := .done }, [.emit (.done d.text)])

def onError (s : Fsm) (e : ErrorData) : Fsm × List Action :=
  s.fail e.code ⟨tr "Transcription failed", e.message⟩

def onBackend (s : Fsm) (event : TranscriptionEvent) : Fsm × List Action :=
  if s.session.isTerminal then (s, [])
  else match event with
    | .progress p => s.onProgress tr p
    | .final f => s.onFinal f
    | .done d => s.onDone d
    | .error e => s.onError tr e

def onStalled (s : Fsm) : Fsm × List Action :=
  if s.session.isTerminal then (s, [])
  else
    let (s, out) := s.fail "backend_unresponsive"
      ⟨tr "Model not responding", "the transcription service stopped responding"⟩
    (s, .sendAbort :: out)

def onBackendClosed (s : Fsm) (error : Option String) : Fsm × List Action :=
  if s.session.isTerminal then (s, [])
  else s.fail "connection_closed" ⟨tr "Model connection lost",
    error.getD "backend connection closed before the session completed"⟩

/-- The single transition function. -/
def onInput (s : Fsm) : Input → Fsm × List Action
  | .audio chunk => s.onAudio chunk
  | .endOfAudio => s.onEndOfAudio
  | .abort => s.onAbort
  | .captureFailed fault => s.onCaptureFailed fault
  | .captureLost fault => s.onCaptureLost fault
  | .backend event => s.onBackend tr event
  | .backendClosed error => s.onBackendClosed tr error
  | .stalled => s.onStalled tr

/-- A run: the state after the inputs, and every action in order. -/
def run (s : Fsm) : List Input → Fsm × List Action
  | [] => (s, [])
  | input :: inputs =>
    let (s, out) := s.onInput tr input
    let (s, later) := s.run inputs
    (s, out ++ later)

end Fsm

end Orchestrator

end Myna
