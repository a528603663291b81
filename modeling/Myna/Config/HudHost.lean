import Mathlib.Algebra.Group.Nat.Defs
import Myna.Lib.StepSystem

/-!
# Myna — the HUD's supervisor (`myna_config::hud_host`)

The host starts the HUD while the daemon owns its bus name, restarts it with a growing delay when it
dies, and gives up when it keeps dying. `Machine.step` is the rules, events in and actions out; a
`World` performs the actions, and its `next` answers each `Spawn` before anything else happens.
`planRestart` is the same policy in the GNOME extension.
-/

namespace Myna

namespace Config

namespace HudHost

def BASE_BACKOFF_MS : ℕ := 500

def MAX_BACKOFF_MS : ℕ := 30000

def RESTART_BUDGET : ℕ := 5

def HEALTHY_UPTIME_MS : ℕ := 60000

def TERM_GRACE_MS : ℕ := 3000

def EXIT_CANNOT_HOST : Int := 78

def U64_MAX : ℕ := 2 ^ 64 - 1

/-! ## The machine -/

inductive Event
  | nameOwned
  | nameLost
  | exited (code : Option Int) (nowMs : ℕ)
  | spawnFailed (nowMs : ℕ)
  | restartDue
  | killDue
  | spawned (nowMs : ℕ)
  | shutdown
deriving DecidableEq

inductive Note
  | cannotHost
  | dormant
deriving DecidableEq

inductive Action
  | register
  | unregister
  | spawn
  | terminate
  | kill
  | armRestart (delayMs : ℕ)
  | cancelRestart
  | armKill (delayMs : ℕ)
  | cancelKill
  | log (note : Note)
deriving DecidableEq

inductive Child
  | none
  | running (sinceMs : ℕ)
  | stopping (thenStart : Bool)
  | backoff
deriving DecidableEq

structure Machine where
  owned : Bool := false
  child : Child := .none
  failures : ℕ := 0
  refused : Bool := false
  dormant : Bool := false
  registered : Bool := false
  graceMs : ℕ := TERM_GRACE_MS
deriving DecidableEq

namespace Machine

def hasChild (m : Machine) : Bool :=
  match m.child with
  | .running _ | .stopping _ => true
  | _ => false

def startable (m : Machine) : Bool := m.owned && !m.refused && !m.dormant

def nameOwned (m : Machine) : Machine × List Action :=
  if m.owned then (m, [])
  else
    let m := { m with owned := true }
    if !m.startable then (m, [])
    else
      let m := { m with registered := true }
      match m.child with
      | .none => (m, [.register, .spawn])
      | .stopping _ => ({ m with child := .stopping true }, [.register])
      | _ => (m, [.register])

/-- Withdraw the registration, if there is one to withdraw. -/
def unregister (m : Machine) : Machine × List Action :=
  ({ m with registered := false }, if m.registered then [.unregister] else [])

def nameLost (m : Machine) : Machine × List Action :=
  if !m.owned then (m, [])
  else
    -- the registry went with the daemon, and a new daemon is a fresh incident
    let m := { m with owned := false, registered := false, failures := 0, dormant := false }
    match m.child with
    | .running _ => ({ m with child := .stopping false }, [.terminate, .armKill m.graceMs])
    | .stopping _ => ({ m with child := .stopping false }, [])
    | .backoff => ({ m with child := .none }, [.cancelRestart])
    | .none => (m, [])

/-- `u64::saturating_mul`. -/
def saturatingMul (a b : ℕ) : ℕ := min (a * b) U64_MAX

def backoffMs (failures : ℕ) : ℕ :=
  min (saturatingMul BASE_BACKOFF_MS (1 <<< (failures - 1))) MAX_BACKOFF_MS

/-- One more consecutive failure: back off, or give up. -/
def fail (m : Machine) : Machine × List Action :=
  let m := { m with failures := m.failures + 1 }
  if RESTART_BUDGET < m.failures then
    let (m, actions) := { m with dormant := true }.unregister
    (m, actions ++ [.log .dormant])
  else ({ m with child := .backoff }, [.armRestart (backoffMs m.failures)])

def exited (m : Machine) (code : Option Int) (nowMs : ℕ) : Machine × List Action :=
  match m.child with
  | .stopping thenStart =>
    let m := { m with failures := 0, child := .none }
    (m, .cancelKill :: if thenStart && m.startable then [.spawn] else [])
  | .running sinceMs =>
    let m := { m with child := .none }
    if code = some EXIT_CANNOT_HOST then
      let (m, actions) := { m with refused := true }.unregister
      (m, actions ++ [.log .cannotHost])
    else
      let m := if HEALTHY_UPTIME_MS ≤ nowMs - sinceMs then { m with failures := 0 } else m
      m.fail
  -- a spawn that failed
  | .none => if m.startable then m.fail else (m, [])
  | .backoff => (m, [])

def step (m : Machine) : Event → Machine × List Action
  | .nameOwned => m.nameOwned
  | .nameLost => m.nameLost
  | .shutdown =>
    let (m, actions) := m.unregister
    let (m, more) := m.nameLost
    (m, actions ++ more)
  | .spawned nowMs => ({ m with child := .running nowMs }, [])
  | .exited code nowMs => m.exited code nowMs
  | .spawnFailed nowMs => m.exited none nowMs
  | .restartDue =>
    if m.child = .backoff ∧ m.owned then ({ m with child := .none }, [.spawn]) else (m, [])
  | .killDue =>
    match m.child with
    | .stopping _ => (m, [.kill])
    | _ => (m, [])

end Machine

/-! ## The extension's policy -/

structure Plan where
  restart : Bool
  delayMs : ℕ
  consecutiveFailures : ℕ
  dormant : Bool
deriving DecidableEq

/-- `planRestart`. -/
def planRestart (consecutiveFailures : ℕ) (expected : Bool) (uptimeMs : ℕ) : Plan :=
  if expected then ⟨false, 0, 0, false⟩
  else
    let priorFailures := if HEALTHY_UPTIME_MS ≤ uptimeMs then 0 else consecutiveFailures
    let consecutiveFailures := priorFailures + 1
    if RESTART_BUDGET < consecutiveFailures then ⟨false, 0, consecutiveFailures, true⟩
    else
      ⟨true, min MAX_BACKOFF_MS (BASE_BACKOFF_MS * 2 ^ (consecutiveFailures - 1)),
        consecutiveFailures, false⟩

/-! ## The host -/

/-- The machine, and what its actions have done. -/
structure World where
  machine : Machine := {}
  -- the HUD processes, of which the latest was told to stop, or killed
  live : ℕ := 0
  terminated : Bool := false
  killed : Bool := false
  -- the timers that are armed, with their delays
  restart : Option ℕ := none
  kill : Option ℕ := none
  -- a spawn has been asked for and is not answered
  pending : Bool := false
  -- the restarts since a healthy run, and since the daemon's name was lost if that is later
  unhealthy : ℕ := 0
  restarts : ℕ := 0
  -- the host has ended, and the daemon's name was not reported owned since
  ended : Bool := false
deriving DecidableEq

namespace World

def perform (w : World) : Action → World
  | .spawn => { w with pending := true }
  | .terminate => { w with terminated := decide (0 < w.live) }
  | .kill => { w with killed := decide (0 < w.live) }
  | .armRestart delayMs => { w with restart := some delayMs }
  | .cancelRestart => { w with restart := none }
  | .armKill delayMs => { w with kill := some delayMs }
  | .cancelKill => { w with kill := none }
  | .register | .unregister | .log _ => w

/-- A run that ends with this event has been a healthy one. -/
def healthy (w : World) : Event → Bool
  | .exited _ nowMs =>
    match w.machine.child with
    | .running sinceMs => HEALTHY_UPTIME_MS ≤ nowMs - sinceMs
    | _ => false
  | _ => false

/-- The daemon's name is lost with this event, or given up. -/
def loses (w : World) (event : Event) : Bool :=
  w.machine.owned && (event = .nameLost || event = .shutdown)

/-- What an event is, before the machine acts on it. -/
def noted (w : World) (event : Event) : World :=
  let restarted := event = .restartDue ∧ Action.spawn ∈ (w.machine.step event).2
  { w with
    restart := if event = .restartDue then none else w.restart
    kill := if event = .killDue then none else w.kill
    unhealthy :=
      if restarted then w.unhealthy + 1 else if w.healthy event then 0 else w.unhealthy
    restarts :=
      if restarted then w.restarts + 1
      else if w.healthy event || w.loses event then 0 else w.restarts
    ended := if event = .shutdown then true else if event = .nameOwned then false else w.ended }

def feed (w : World) (event : Event) : World :=
  let (machine, actions) := w.machine.step event
  actions.foldl perform { w.noted event with machine }

/-- What happens next: a spawn is answered at once, a HUD that exits is one that lives, and the rest
comes at any time. -/
def next (w : World) (event : Event) : Option World :=
  match event with
  | .spawned _ =>
    if w.pending then some ({ w with pending := false, live := w.live + 1 }.feed event) else none
  | .spawnFailed _ => if w.pending then some ({ w with pending := false }.feed event) else none
  | .exited _ _ =>
    if !w.pending && 0 < w.live then
      some ({ w with live := w.live - 1, terminated := false, killed := false }.feed event)
    else none
  | _ => if w.pending then none else some (w.feed event)

/-- Events in a row, as far as they can happen. -/
def run (w : World) : List Event → Option World
  | [] => some w
  | event :: events => (w.next event).bind fun w => w.run events

end World

def Step (w w' : World) : Prop := ∃ event, w.next event = some w'

/-- A host that starts, with the grace it is configured with. -/
def start (graceMs : ℕ) : World := { machine.graceMs := graceMs }

def Reachable (graceMs : ℕ) (w : World) : Prop := StepSystem.Reachable Step (start graceMs) w

end HudHost

end Config

end Myna
