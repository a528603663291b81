import Mathlib.Data.Fintype.BigOperators
import Myna.Desktop.Controller
import Myna.Lib.StepSystem

/-!
# Myna — what a session sounds like (`myna_desktop::sound`)

The cues are taken from the states that the indicator is shown, and played on a thread of their own,
one job at a time; Myna Settings has a whole set previewed on the same thread. The jobs wait in a
bounded queue, and a flag keeps a second preview out while one is queued or playing.

* **`step`** — the cue that a state of the indicator earns;
* **`Step`** — the daemon, the callers of `preview` and the thread, an atomic access at a time.
-/

namespace Myna

namespace Desktop

namespace Sound

inductive SoundSet
  | myna
  | tine
  | hum
  | marimba
  | drop
  | radio
  | koto
deriving DecidableEq

inductive Cue
  | start
  | stop
  | error
deriving DecidableEq

/-! ## The cues of a session -/

inductive Phase
  | idle
  | listening
  | ending
  | failed
deriving DecidableEq

/-- The phase that a state leaves behind, and the cue that it earns. -/
def step (phase : Phase) : IndicatorState → Phase × Option Cue
  | .recording => (.listening, if phase = .listening then none else some .start)
  | .transcribing => (phase, none)
  | .finalizing => if phase = .listening then (.ending, some .stop) else (phase, none)
  | .error _ false => (.failed, if phase = .failed then none else some .error)
  | .hidden | .error _ true => (.idle, if phase = .listening then some .stop else none)

/-! ## The player -/

/-- How many jobs wait behind the one playing. -/
def BACKLOG : ℕ := 3

/-- A preview plays the cues in a session's order. -/
def PREVIEW : List Cue := [.start, .stop, .error]

inductive Job
  | cue (cue : Cue)
  | preview (set : SoundSet)
deriving DecidableEq

/-- What a job has played: a cue, and its set where it is a preview's. -/
def Job.sounds : Job → List (Option SoundSet × Cue)
  | .cue c => [(none, c)]
  | .preview set => PREVIEW.map fun c => (some set, c)

def Job.isPreview : Job → Bool
  | .preview _ => true
  | .cue _ => false

/-- Where the thread is: at `recv`, or with what is left of a job. -/
inductive Thread
  | waiting
  | cue (cue : Cue)
  | preview (set : SoundSet) (left : List Cue)
deriving DecidableEq

def Thread.start : Job → Thread
  | .cue c => .cue c
  | .preview set => .preview set PREVIEW

/-- Where a caller of `preview` is: not in it, past the `swap` that it won, or past a `try_send`
that failed. -/
inductive Caller
  | idle
  | marked (set : SoundSet)
  | refused
deriving DecidableEq

/-- The daemon, its callers, its player, and what came of them. -/
structure State (ι : Type*) where
  enabled : Bool := true
  live : SoundSet
  phase : Phase := .idle
  queue : List Job := []
  previewing : Bool := false
  callers : ι → Caller := fun _ => .idle
  thread : Thread := .waiting
  /-- The states that the indicator was shown. -/
  shown : List IndicatorState := []
  /-- The jobs that the queue took. -/
  accepted : List Job := []
  /-- What was played, and from which set. -/
  played : List ((Option SoundSet × Cue) × SoundSet) := []

namespace State

variable {ι : Type*} [DecidableEq ι]

/-- `try_send`, and whether there was room. -/
def trySend (s : State ι) (job : Job) : State ι × Bool :=
  if s.queue.length < BACKLOG then
    ({ s with queue := s.queue ++ [job], accepted := s.accepted ++ [job] }, true)
  else (s, false)

/-- `Chiming::set_state`, as far as it is heard. -/
def setState (s : State ι) (state : IndicatorState) : State ι :=
  let (phase, earned) := step s.phase state
  let s := { s with phase, shown := s.shown ++ [state] }
  match earned with
  | some earned => if s.enabled then (s.trySend (.cue earned)).1 else s
  | none => s

/-- The first access of `preview`: a flag that was set is the answer. -/
def swap (s : State ι) (i : ι) (set : SoundSet) : State ι :=
  if s.previewing then s
  else { s with previewing := true, callers := Function.update s.callers i (.marked set) }

/-- The second: where there is room, the caller is answered. -/
def send (s : State ι) (i : ι) (set : SoundSet) : State ι :=
  let (t, room) := s.trySend (.preview set)
  { t with callers := Function.update t.callers i (if room then .idle else .refused) }

/-- The third, where there was none. -/
def unmark (s : State ι) (i : ι) : State ι :=
  { s with previewing := false, callers := Function.update s.callers i .idle }

/-- One turn of the thread: a job, a sound of it, or its end. -/
def turn (s : State ι) : State ι :=
  match s.thread, s.queue with
  | .waiting, [] => s
  | .waiting, job :: queue => { s with thread := .start job, queue }
  | .cue cue, _ => { s with thread := .waiting, played := s.played ++ [((none, cue), s.live)] }
  | .preview set (cue :: left), _ =>
    { s with thread := .preview set left, played := s.played ++ [((some set, cue), set)] }
  | .preview _ [], _ => { s with thread := .waiting, previewing := false }

/-- What the player and the callers within `preview` do by themselves. -/
inductive Own : State ι → State ι → Prop
  | send {s : State ι} (i : ι) (set : SoundSet) (h : s.callers i = .marked set) :
      Own s (s.send i set)
  | unmark {s : State ι} (i : ι) (h : s.callers i = .refused) : Own s (s.unmark i)
  | turn {s : State ι} (h : s.thread ≠ .waiting ∨ s.queue ≠ []) : Own s s.turn

/-- One step. -/
inductive Step : State ι → State ι → Prop
  | setState {s : State ι} (state : IndicatorState) : Step s (s.setState state)
  | setEnabled {s : State ι} (enabled : Bool) : Step s { s with enabled }
  | setLive {s : State ι} (live : SoundSet) : Step s { s with live }
  | swap {s : State ι} (i : ι) (set : SoundSet) (h : s.callers i = .idle) : Step s (s.swap i set)
  | own {s t : State ι} (h : Own s t) : Step s t

end State

end Sound

end Desktop

end Myna
