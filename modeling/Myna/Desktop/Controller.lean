import Myna.Desktop.CommitBuffer
import Myna.Lib.StepSystem
import Mathlib.Data.Rat.Defs
import Mathlib.Algebra.Order.Ring.Rat

/-!
# Myna — the desktop controller (`myna_desktop::controller`)

`run_one_utterance` acquires the focused target, selects among what the target, the trigger, the
capture and the session have to say, and gives the target up once the session is over. A
`Controller.Step` runs from one wait to the next; the log holds what the controller asked of the
world around it and what it was told. `tr` translates a headline; nothing depends on what it
returns. -/

namespace Myna

namespace Desktop

open Orchestrator (OrchestratorEvent SessionOutcome Failure)

/-! ## States -/

inductive DictationState
  | idle
  | starting
  | recording
  | transcribing
  | finalizing
  | completed
  | cancelled
  | error
deriving DecidableEq

/-- Whether `self → to` is a legal transition. -/
def DictationState.canTransition : DictationState → DictationState → Bool
  | .idle, .starting => true
  | .starting, .recording => true
  | .starting, .cancelled => true
  | .starting, .error => true
  | .starting, .idle => true
  | .recording, .transcribing => true
  | .recording, .finalizing => true
  | .recording, .cancelled => true
  | .recording, .error => true
  | .transcribing, .recording => true
  | .transcribing, .finalizing => true
  | .transcribing, .cancelled => true
  | .transcribing, .error => true
  | .finalizing, .completed => true
  | .finalizing, .cancelled => true
  | .finalizing, .error => true
  | .completed, .idle => true
  | .cancelled, .idle => true
  | .error, .idle => true
  | _, _ => false

/-- Capture is on. -/
def DictationState.isListening : DictationState → Bool
  | .recording | .transcribing => true
  | _ => false

/-! ## What is shown -/

inductive IndicatorState
  | hidden
  | recording
  | transcribing
  | finalizing
  | error (message : String) (recoverable : Bool)
deriving DecidableEq

namespace IndicatorState

def critical (message : String) : IndicatorState := .error message false

def recoverable (message : String) : IndicatorState := .error message true

end IndicatorState

/-- What the stats tap of a capture tells, the durations in seconds. -/
structure AudioStats where
  captured : ℚ := 0
  lastVoice : Option ℚ := none
  snrDb : Option ℚ := none
  noiseFloor : ℚ := 0
  speechLevel : ℚ := 0
  offset : ℚ := 0
deriving DecidableEq

inductive InputQuality
  | ok
  | noisy
deriving DecidableEq

def MIN_SNR_DB : ℚ := 10

def inputQuality (stats : AudioStats) : InputQuality :=
  match stats.snrDb with
  | some snr => if snr < MIN_SNR_DB then .noisy else .ok
  | none => .ok

/-- Whether a policy that ends a session after `silence` says that this one is over. -/
def autoStopDue (stats : AudioStats) (silence : ℚ) : Bool :=
  let sinceVoice := max (stats.captured - stats.lastVoice.getD 0) 0
  decide (0 < silence ∧ silence ≤ sinceVoice)

structure InputLevels where
  offset : ℚ
  noiseFloor : ℚ
  speechLevel : ℚ
  snrDb : Option ℚ
deriving DecidableEq

section Shown

variable (tr : String → String)

/-- `transcript.trim().is_empty()`. -/
def isBlank (text : String) : Bool := text.toList.all isWhitespace

/-- The indicator state of a completed session. -/
def completionIndicatorState (transcript : String) (delivery : Delivery) (quality : InputQuality)
    (warning : Option String) : IndicatorState :=
  match delivery, isBlank transcript with
  | .dropped, _ => .recoverable (tr "Focus lost")
  | .focusLost, true => .recoverable (tr "Focus lost")
  | _, true => .recoverable (tr "No speech detected")
  | _, false =>
    match warning with
    | some headline => .recoverable headline
    | none => if quality = .noisy then .recoverable (tr "Background noise is high") else .hidden

/-- The indicator state an event shows, if it shows one. -/
def eventToIndicator (event : OrchestratorEvent) (state : DictationState) (delivery : Delivery)
    (quality : InputQuality) (captureFault warning : Option String) : Option IndicatorState :=
  match event with
  | .loading | .ready | .transcribing => if state.isListening then some .recording else none
  | .done text => some (match captureFault with
    | some message => .critical message
    | none => completionIndicatorState tr text delivery quality warning)
  | .error _ failure => some (.critical failure.headline)
  | _ => none

namespace InjectError

def headline : InjectError → String
  | .secureField => tr "Password field skipped"
  | .noTarget => tr "No text field focused"
  | .focusLost => tr "Focus lost"
  | .unavailable _ => tr "Typing unavailable"
  | .backend _ => tr "Typing failed"

def toString : InjectError → String
  | .secureField => "focused field is secure (password); refusing to inject"
  | .noTarget => "no editable target is focused"
  | .focusLost => "focus left the dictation target"
  | .unavailable cause => s!"injection backend unavailable: {cause}"
  | .backend cause => s!"injection backend error: {cause}"

end InjectError

end Shown

/-! ## The surroundings -/

inductive TriggerEdge
  | press
  | release
deriving DecidableEq

/-- Whether a backend can answer a question at all. -/
inductive Support
  | supported
  | unknown
deriving DecidableEq

/-- Whether to dictate where a secure field may not be told from another. -/
def dictatesInto : Support → Bool
  | .supported => true
  | .unknown => true

/-- The capabilities of a text input backend that the controller reads. -/
structure TextInputCapabilities where
  preedit : Bool := false
  secureFieldDetection : Support := .unknown

/-- A backend error as the controller reads it: its headline, its text, and `needs_restart`. -/
structure BackendError where
  headline : String
  detail : String
  needsRestart : Bool := false

/-- What the controller asked of its surroundings, and what these told it, the newest last. -/
inductive Entry
  | advanced (state next : DictationState)
  | acquired
  | lost
  | focus (event : FocusEvent)
  | routed (event : OrchestratorEvent)
  | committed (before : Option Char) (pending text : String) (answer : Except InjectError Unit)
  | discarded (pending : String)
  | preedit (text : String)
  | released
  | indicated (state : IndicatorState)
  | lastError (headline detail : String)
  | audioDrops (notActive : ℕ)
  | inputLevels (levels : InputLevels)
  | stopped
  | activated
  | resynced
  | discardedPending

/-! ## The loop of an utterance -/

/-- The locals of the select loop, `Utterance` included. -/
structure Loop where
  triggerOpen : Bool := true
  focusOpen : Bool := true
  eventsOpen : Bool := true
  tapped : Bool
  statsOpen : Bool
  ending : Ending := .none
  buffer : CommitBuffer := {}
  notActive : ℕ := 0
  fault : Option String := none
  warning : Option (String × String) := none
  done : Option (Except BackendError SessionOutcome) := none

/-- A tap that was never opened still holds the default snapshot. -/
def Loop.snapshot (l : Loop) (stats : AudioStats) : AudioStats := if l.tapped then stats else {}

/-- Where `run_one_utterance` is. -/
inductive Stage
  | ready
  | acquiring
  | running (l : Loop)
  | finished

structure Controller where
  state : DictationState := .idle
  warned : List String := []
  stage : Stage := .ready
  log : List Entry := []

namespace Controller

variable (tr : String → String)

def tell (c : Controller) (entries : List Entry) : Controller := { c with log := c.log ++ entries }

/-- `advance`, without the panic on a transition that is not legal. -/
def advance (c : Controller) (next : DictationState) : Controller :=
  { c.tell [.advanced c.state next] with state := next }

def enterFinalizing (c : Controller) : Controller :=
  if c.state.isListening then (c.advance .finalizing).tell [.indicated .finalizing] else c

def ensureFinalizing (c : Controller) : Controller :=
  if c.state.isListening then c.advance .finalizing else c

def finalizeState (c : Controller) (terminal : DictationState) : Controller :=
  match terminal with
  | .completed => c.ensureFinalizing.advance .completed
  | terminal => c.advance terminal

def reportFailure (c : Controller) (headline detail : String) : Controller :=
  c.tell [.lastError headline detail, .indicated (.critical headline)]

/-- A flush of the buffer, and what it leaves in the log. -/
def flush (c : Controller) (l : Loop) (reply : Reply) : Controller × Loop :=
  let (buffer, text, reason) := l.buffer.flush l.ending.writesAllowed reply
  let entries : List Entry :=
    if l.buffer.pending = "" then []
    else match text with
      | none => [.discarded l.buffer.pending]
      | some text => [.committed reply.charBeforeCursor l.buffer.pending text reply.answer]
  (c.tell entries, { l with buffer, ending := l.ending.or reason })

def isFinal : OrchestratorEvent → Bool
  | .final _ => true
  | _ => false

/-- What an event does to the utterance, after the flush that precedes it. -/
def record (c : Controller) (l : Loop) : OrchestratorEvent → Controller × Loop
  | .transcribing => (if c.state = .recording then c.advance .transcribing else c, l)
  | .captureLost lost =>
    (c.enterFinalizing, { l with fault := some (l.fault.getD lost.headline) })
  | .warning code notice =>
    let key := code.getD notice.headline
    (c, if l.warning.isNone ∧ key ∉ c.warned then { l with warning := some (key, notice.headline) }
      else l)
  | .audioDropped =>
    (c.tell [.audioDrops (l.notActive + 1)], { l with notActive := l.notActive + 1 })
  | .final text => (c, { l with buffer := l.buffer.push text })
  | _ => (c, l)

def showEvent (c : Controller) (l : Loop) (event : OrchestratorEvent) (quality : InputQuality) :
    Controller :=
  match eventToIndicator tr event c.state (l.ending.delivery l.buffer.dropped) quality l.fault
    (l.warning.map Prod.snd) with
  | some shown => c.tell [.indicated shown]
  | none => c

def showPreedit (c : Controller) (l : Loop) (event : OrchestratorEvent) (preedit : Bool) :
    Controller :=
  match event with
  | .unstable text => if preedit && l.ending.writesAllowed then c.tell [.preedit text] else c
  | _ => c

/-- `route_event`. -/
def routeEvent (c : Controller) (l : Loop) (event : OrchestratorEvent) (preedit : Bool)
    (quality : InputQuality) (reply : Reply) : Controller × Loop :=
  let (c, l) := if isFinal event then (c, l) else c.flush l reply
  let (c, l) := (c.tell [.routed event]).record l event
  ((c.showEvent tr l event quality).showPreedit l event preedit, l)

/-- A wake-up of the select. -/
inductive Branch
  | focus (event : Option FocusEvent)
  | edge (edge : Option TriggerEdge)
  | changed (stats : Option AudioStats) (silence : ℚ)
  | result (result : Except BackendError SessionOutcome)
  | event (event : Option OrchestratorEvent) (preedit : Bool) (stats : AudioStats) (reply : Reply)

/-- A target whose right to write is gone takes nothing. -/
def Honest (log : List Entry) (reply : Reply) : Prop := .lost ∈ log → reply.answer ≠ .ok ()

/-- A branch of the select that is enabled. -/
def Enabled (c : Controller) (l : Loop) : Branch → Prop
  | .focus _ => l.focusOpen = true
  | .edge _ => l.triggerOpen = true ∧ l.done.isNone
  | .changed _ _ => l.statsOpen = true ∧ l.done.isNone
  | .result _ => l.done.isNone
  | .event _ _ _ reply => l.eventsOpen = true ∧ Honest c.log reply

/-- The body of a branch. -/
def select (capabilities : TextInputCapabilities) (c : Controller) (l : Loop) :
    Branch → Controller × Loop
  | .focus (some .focusOut) =>
    (((c.tell [.focus .focusOut, .stopped]).enterFinalizing).tell [.resynced],
      { l with ending := l.ending.or .focusLost, triggerOpen := false })
  | .focus (some .targetGone) =>
    (c.tell [.focus .targetGone, .stopped, .resynced],
      { l with ending := l.ending.or .targetGone, triggerOpen := false })
  | .focus none => (c, { l with focusOpen := false })
  | .edge (some .release) =>
    ((c.tell [.activated, .stopped]).enterFinalizing, { l with triggerOpen := false })
  | .edge (some .press) => (c.tell [.activated], l)
  | .edge none => ((c.tell [.stopped]).enterFinalizing, { l with triggerOpen := false })
  | .changed none _ => (c, { l with statsOpen := false })
  | .changed (some stats) silence =>
    if autoStopDue stats silence then
      (((c.tell [.stopped]).enterFinalizing).tell [.resynced],
        { l with triggerOpen := false, statsOpen := false })
    else (c, l)
  | .result result => (c, { l with done := some result })
  | .event (some event) preedit stats reply =>
    c.routeEvent tr l event (preedit && capabilities.preedit)
      (inputQuality (l.snapshot stats)) reply
  | .event none _ _ _ => (c, { l with eventsOpen := false })

/-! ## Before and after the loop -/

def abortBeforeCapture (c : Controller) (err : InjectError) : Controller :=
  (((c.reportFailure (err.headline tr) err.toString).advance .error).tell [.resynced]).advance .idle

/-- What the result of the session comes to. -/
def disposition (c : Controller) (l : Loop) (outcome : Except BackendError SessionOutcome)
    (quality : InputQuality) : Controller :=
  match outcome with
  | .ok (.completed transcript) =>
    let c := c.ensureFinalizing
    let completion := completionIndicatorState tr transcript (l.ending.delivery l.buffer.dropped)
      quality (l.warning.map Prod.snd)
    let warned := match l.warning with
      | some (key, headline) =>
        if completion = .recoverable headline then c.warned ++ [key] else c.warned
      | none => c.warned
    (({ c with warned }).tell [.indicated completion]).finalizeState .completed
  | .ok .aborted => (c.finalizeState .cancelled).tell [.resynced]
  | .ok (.failed _ failure) =>
    ((c.reportFailure failure.headline failure.detail).finalizeState .error).tell [.resynced]
  | .error err =>
    if err.needsRestart then
      ((c.tell [.indicated (.recoverable err.headline)]).finalizeState .cancelled).tell [.resynced]
    else ((c.reportFailure err.headline err.detail).finalizeState .error).tell [.resynced]

def isCompleted : Except BackendError SessionOutcome → Bool
  | .ok (.completed _) => true
  | _ => false

/-- All that follows the loop. -/
def conclude (c : Controller) (l : Loop) (outcome : Except BackendError SessionOutcome)
    (stats : AudioStats) (reply : Reply) : Controller :=
  let (c, l) := if isCompleted outcome then c.flush l reply else (c, l)
  let c := c.tell [.released]
  let heard := l.snapshot stats
  let c := if 0 < heard.captured then
      c.tell [.inputLevels ⟨heard.offset, heard.noiseFloor, heard.speechLevel, heard.snrDb⟩]
    else c
  let c := if l.ending = .targetGone then
      (c.reportFailure (tr "Text field closed") "dictation target closed").finalizeState .cancelled
    else c.disposition tr l outcome (inputQuality heard)
  { (c.advance .idle).tell [.discardedPending] with stage := .finished }

/-- One step of a run, from one wait to the next. A loss of the target is not waited for. -/
inductive Step (capabilities : TextInputCapabilities) : Controller → Controller → Prop
  | press {c : Controller} (hstage : c.stage = .ready) :
      Step capabilities c (if dictatesInto capabilities.secureFieldDetection then
          { c.advance .starting with stage := .acquiring }
        else { (c.advance .starting).abortBeforeCapture tr .secureField with stage := .finished })
  | refused {c : Controller} (err : InjectError) (hstage : c.stage = .acquiring) :
      Step capabilities c { c.abortBeforeCapture tr err with stage := .finished }
  | acquired {c : Controller} (tapped : Bool) (hstage : c.stage = .acquiring) :
      Step capabilities c { ((c.tell [.acquired]).advance .recording).tell
        [.indicated .recording] with
        stage := .running { tapped, statsOpen := tapped } }
  | lose {c : Controller} {l : Loop} (hstage : c.stage = .running l) :
      Step capabilities c (c.tell [.lost])
  | select {c : Controller} {l : Loop} (branch : Branch) (hstage : c.stage = .running l)
      (hopen : l.eventsOpen = true ∨ l.done.isNone) (henabled : c.Enabled l branch) :
      Step capabilities c { (c.select tr capabilities l branch).1 with
        stage := .running (c.select tr capabilities l branch).2 }
  | conclude {c : Controller} {l : Loop} {outcome : Except BackendError SessionOutcome}
      (stats : AudioStats) (reply : Reply) (hstage : c.stage = .running l)
      (hevents : l.eventsOpen = false) (hdone : l.done = some outcome)
        (hhonest : Honest c.log reply) :
      Step capabilities c (c.conclude tr l outcome stats reply)

end Controller

end Desktop

end Myna
