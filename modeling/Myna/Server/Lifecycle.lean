import Mathlib.Data.Rat.Defs
import Mathlib.Algebra.Order.Ring.Rat
import Mathlib.Data.List.Nodup
import Myna.Lib.FairLock

/-!
# Myna — when the model is resident (`myna.server.lifecycle`)

Sessions load the model when they begin, and find it there if it has been loaded. A monitor drops
it after the server has been idle for a while. A load runs in a task of its own, which goes on when
its session is cancelled, and both load and unload under one lock.

What runs between two awaits is one step, so a step of the machine is what one task does until it
waits again. A task that has been created starts before the loop sleeps, and a task that waits for
the lock is not cancelled, but for the monitor when the server stops.

* **`Step`** — sessions, their loads, the monitor and the clock.
-/

namespace Myna

namespace Lifecycle

/-! ## The server -/

/-- What asks for the model's lock. -/
inductive Job
  | load (session : ℕ)
  | unload
deriving DecidableEq

/-- Where a session stands; a model is known by its number. -/
inductive Phase
  | refused
  | loading
  | failed
  | loaded (model : ℕ)
deriving DecidableEq

inductive IdleAction
  | unload
  | exit
deriving DecidableEq

/-- Where `idle_monitor` stands. -/
inductive Monitor
  | asleep (since : ℚ)
  | unloading
  | trimming
  | returned
deriving DecidableEq

structure Server where
  sessions : List (ℕ × Phase) := []
  /-- The loads that have been created and have not started. -/
  created : List ℕ := []
  lock : FairLock Job := {}
  model : Option ℕ := none
  /-- How many models have been built. -/
  built : ℕ := 0
  /-- The number of the next session. -/
  next : ℕ := 0
  active : ℕ := 0
  last : ℚ := 0
  released : Bool := false
  stop : Bool := false
  monitor : Monitor := .asleep 0
  /-- When the monitor came back from an unload, at last. -/
  trimmed : ℚ := 0
  now : ℚ := 0
deriving DecidableEq

namespace Server

/-- What `serve` starts with, once it has preloaded the model or not. -/
def serving (preload : Bool) : Server :=
  if preload then { model := some 0, built := 1 } else {}

variable (s : Server)

def ids : List ℕ := s.sessions.map Prod.fst

def busy : Bool := 0 < s.active

def idleSeconds : ℚ := if s.busy then 0 else s.now - s.last

/-! ## Sessions -/

/-- `run_session` up to its first await; `accepted` is about the format of the audio. -/
def runSession (accepted : Bool) : Server :=
  { s with
    active := s.active + 1
    released := false
    sessions := s.sessions ++ [(s.next, if accepted then .loading else .refused)]
    created := if accepted then s.created ++ [s.next] else s.created
    next := s.next + 1 }

/-- The session is over, or has been cancelled. -/
def endSession (id : ℕ) : Server :=
  { s with
    sessions := s.sessions.filter fun session => session.1 ≠ id
    active := s.active - 1
    last := s.now }

/-- What a load came to, for a session that still waits for it. -/
def served (id : ℕ) (phase : Phase) : List (ℕ × Phase) :=
  s.sessions.map fun session => if session = (id, .loading) then (id, phase) else session

/-! ## The lock -/

/-- `job` has the lock, and goes on to its next await. -/
def granted : Job → Server
  | .load id =>
    match s.model with
    | some model => { s with sessions := s.served id (.loaded model), lock := s.lock.release }
    | none => s
  | .unload => { s with model := none, monitor := .trimming, lock := s.lock.release }

def request (job : Job) : Server :=
  let asked := { s with lock := s.lock.ask job }
  if s.lock.free then asked.granted job else asked

/-- `_load_model`, up to its first await. -/
def startLoad (id : ℕ) : Server :=
  { s with created := s.created.erase id }.request (.load id)

/-- The thread of a load has built the model. -/
def loadBuilt (id : ℕ) : Server :=
  { s with
    model := some s.built
    built := s.built + 1
    sessions := s.served id (.loaded s.built)
    lock := s.lock.release }

def loadFailed (id : ℕ) : Server :=
  { s with sessions := s.served id .failed, lock := s.lock.release }

/-! ## The monitor -/

/-- The head of its loop. -/
def monitorLoop : Server :=
  { s with monitor := if s.stop then .returned else .asleep s.now }

def maybeRelease (action : IdleAction) : Server :=
  if s.busy ∨ s.released then s.monitorLoop
  else
    match action with
    | .exit => { s with released := true, stop := true }.monitorLoop
    | .unload => { s with released := true, monitor := .unloading }.request .unload

/-- The monitor wakes up. -/
def wake (action : IdleAction) (timeout : ℚ) : Server :=
  if s.stop then { s with monitor := .returned }
  else if ¬ s.busy ∧ timeout ≤ s.idleSeconds then s.maybeRelease action
  else s.monitorLoop

/-- The heap has been trimmed. -/
def trimDone : Server := { s with trimmed := s.now }.monitorLoop

/-- `monitor.cancel()`. -/
def cancelMonitor : Server :=
  { s with monitor := .returned, lock := s.lock.abandon .unload }

end Server

def tick (timeout : ℚ) : ℚ := max 0.5 (min timeout 5)

/-- What one task does until it waits again, or time that passes. -/
inductive Step (action : IdleAction) (timeout : ℚ) : Server → Server → Prop
  | runSession {s} (accepted : Bool) : Step action timeout s (s.runSession accepted)
  | endSession {s id} (h : id ∈ s.ids) : Step action timeout s (s.endSession id)
  | startLoad {s id} (h : id ∈ s.created) : Step action timeout s (s.startLoad id)
  | take {s job lock} (h : s.lock.take = some (job, lock)) :
    Step action timeout s ({ s with lock := lock }.granted job)
  | loadBuilt {s id} (h : s.lock.holder = some (.load id)) : Step action timeout s (s.loadBuilt id)
  | loadFailed {s id} (h : s.lock.holder = some (.load id)) :
    Step action timeout s (s.loadFailed id)
  | wake {s since} (h : s.monitor = .asleep since)
    (hdue : s.stop = true ∨ since + tick timeout ≤ s.now) :
    Step action timeout s (s.wake action timeout)
  | trimDone {s} (h : s.monitor = .trimming) : Step action timeout s s.trimDone
  | signal {s} : Step action timeout s { s with stop := true }
  | cancelMonitor {s} (h : s.stop = true) : Step action timeout s s.cancelMonitor
  | elapse {s d} (hd : 0 ≤ d) (hstarted : s.created = [])
    (hdue : ∀ since, s.monitor = .asleep since → s.now + d ≤ since + tick timeout) :
    Step action timeout s { s with now := s.now + d }

end Lifecycle

end Myna
