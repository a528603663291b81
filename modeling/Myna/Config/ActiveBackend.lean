import Myna.Config.Connections

/-!
# Myna — switching the model (`myna_config::active_backend`)

A switch is planned against the connections that a page shows: disconnect what feeds Myna, connect
the model asked for, restart Myna's service. `executeSwitch` reads the connections again, runs the
plan unless they changed, reads what became of it, and puts the model before it back where a failure
left none. It is written over `Ports`: what the repository and snapd answer, each answer taking the
world to the next.
-/

namespace Myna

namespace Config

deriving instance DecidableEq for CommandRequest

/-! ## The plan -/

def MYNA_USER_UNIT : String := "snap.myna.myna.service"

inductive PrepareSwitchError
  | backendUnavailable (backend : BackendIdentity)
  | busy
deriving DecidableEq

structure SwitchPlan where
  baseline : ConnectionSnapshot
  selected : BackendIdentity
  operations : List CommandRequest
deriving DecidableEq

def privilegedSnapRequest (action slot : String) : CommandRequest :=
  ⟨"snap", [action, "myna:backend", slot]⟩

def mynaRestartRequest : CommandRequest := ⟨"systemctl", ["--user", "restart", MYNA_USER_UNIT]⟩

namespace SwitchPlan

def new (snapshot : ConnectionSnapshot) (selected : BackendIdentity) :
    Except PrepareSwitchError SwitchPlan :=
  if selected ∉ snapshot.backends then .error (.backendUnavailable selected)
  else
    let connected := connectedBackends snapshot
    let operations :=
      if connected = [selected] then []
      else
        (connected ++ snapshot.strays).map
            (fun backend => privilegedSnapRequest "disconnect" backend.slot) ++
          [privilegedSnapRequest "connect" selected.slot, mynaRestartRequest]
    .ok ⟨snapshot, selected, operations⟩

def isNoop (plan : SwitchPlan) : Bool := plan.operations.isEmpty

end SwitchPlan

def selectedIsActive (snapshot : ConnectionSnapshot) (selected : BackendIdentity) : Bool :=
  snapshot.activeState = .connected selected

/-! ## Errors and outcomes -/

inductive BackendSurface
  | snapInventory
  | connections
  | modelctlApp
  | modelctlConfig
  | status
  | models
  | engines
deriving DecidableEq

structure BackendSurfaceError where
  surface : BackendSurface
  message : String
  stderr : String
deriving DecidableEq

/-- The privileged step a failure report names. -/
inductive FailedStep
  | command (executable : String) (arguments : List String) (exitStatus : Option ℤ)
      (stderr : String)
  | snapd (request : String) (httpStatus : Option ℕ)
  | dBus (call : String)
  | setting (key : String)
deriving DecidableEq

inductive SystemConfiguratorError
  | cancelled
  | authorizationDenied (step : FailedStep) (message : String)
  | valuesRejected (step : FailedStep) (message : String)
  | execution (step : FailedStep) (message : String)
deriving DecidableEq

def SystemConfiguratorError.snapdExecution (request : String) (httpStatus : Option ℕ)
    (message : String) : SystemConfiguratorError :=
  .execution (.snapd request httpStatus) message

/-- A plan that stopped: what had been run by then, and why it stopped. -/
structure SystemConfiguratorFailure where
  completed : List PlanResult
  error : SystemConfiguratorError
deriving DecidableEq

inductive SwitchOutcome
  | applied (completed : List PlanResult) (finalSnapshot : ConnectionSnapshot)
  | disagreed (completed : List PlanResult) (finalSnapshot : ConnectionSnapshot)
  | staleDiscovery (finalSnapshot : ConnectionSnapshot)
  | noop (finalSnapshot : ConnectionSnapshot)
  | busy (change : String) (finalSnapshot : ConnectionSnapshot)
  | failed (completed : List PlanResult) (error : SystemConfiguratorError)
      (finalSnapshot : Option ConnectionSnapshot) (discoveryError : Option BackendSurfaceError)
      (restoreError : Option SystemConfiguratorError)
  | cancelled (completed : List PlanResult) (finalSnapshot : Option ConnectionSnapshot)
      (discoveryError : Option BackendSurfaceError)
  | finalDiscoveryFailed (completed : List PlanResult) (error : BackendSurfaceError)
deriving DecidableEq

/-- What a finished switch tells the user. -/
inductive SwitchNotice
  | none
  | failed
  | unconfirmed
deriving DecidableEq

namespace SwitchOutcome

def notice : SwitchOutcome → SwitchNotice
  | applied .. | noop .. | cancelled .. => .none
  | failed .. | busy .. | disagreed .. | staleDiscovery .. => .failed
  | finalDiscoveryFailed .. => .unconfirmed

def finalSnapshot : SwitchOutcome → Option ConnectionSnapshot
  | applied _ snapshot | disagreed _ snapshot | staleDiscovery snapshot | busy _ snapshot
  | noop snapshot => some snapshot
  | failed _ _ snapshot _ _ | cancelled _ snapshot _ => snapshot
  | finalDiscoveryFailed .. => none

end SwitchOutcome

/-! ## Changes in progress -/

structure ChangeInProgress where
  summary : String
  /-- The snaps that each of its tasks affects. -/
  affectedSnaps : List (List String)

/-- A character that can stand in a snap's name. -/
def isNameChar (c : Char) : Bool := isAsciiLowercase c || isAsciiDigit c || c = '-'

def names (summary : String) (snaps : List String) : Bool :=
  (summary.toList.splitOnP fun c => !isNameChar c).any fun word =>
    snaps.any fun snap => snap.toList = word

def ChangeInProgress.concerns (change : ChangeInProgress) (snaps : List String) : Bool :=
  names change.summary snaps ||
    change.affectedSnaps.any fun affected =>
      affected.any fun name => snaps.any fun snap => snap = name

/-! ## The ports -/

/-- Whose cancellation a call listens to: the user's, or no one's. -/
inductive CancellationToken
  | user
  | new
deriving DecidableEq

/-- What the repository and the configurator answer, in a world of states `σ`. -/
structure Ports (σ : Type) where
  refresh : σ → Except BackendSurfaceError ConnectionSnapshot × σ
  changesInProgress : σ → Except String (List ChangeInProgress) × σ
  executeBackendSwitch : SwitchPlan → CancellationToken → σ →
    Except SystemConfiguratorFailure (List PlanResult) × σ
  /-- The user's token, as it stands. -/
  isCancelled : σ → Bool

/-- A world, and the plans that the configurator was given in it. -/
structure SwitchRun (σ : Type) where
  world : σ
  executed : List SwitchPlan := []

variable {σ : Type} (ports : Ports σ)

namespace Ports

def read (run : SwitchRun σ) : Except BackendSurfaceError ConnectionSnapshot × SwitchRun σ :=
  let (answer, world) := ports.refresh run.world
  (answer, { run with world })

def execute (plan : SwitchPlan) (token : CancellationToken) (run : SwitchRun σ) :
    Except SystemConfiguratorFailure (List PlanResult) × SwitchRun σ :=
  let (answer, world) := ports.executeBackendSwitch plan token run.world
  (answer, { world, executed := run.executed ++ [plan] })

end Ports

/-! ## Running a plan -/

/-- `change_holding`: the summary of a change on Myna or a snap that the switch touches. Changes
that cannot be read hold nothing. -/
def changeHolding (plan : SwitchPlan) (run : SwitchRun σ) : Option String × SwitchRun σ :=
  let snaps := [MYNA_SNAP, plan.selected.snapName] ++
    (connectedBackends plan.baseline ++ plan.baseline.strays).map BackendIdentity.snapName
  match ports.changesInProgress run.world with
  | (.error _, world) => (none, { run with world })
  | (.ok changes, world) =>
    ((changes.find? fun change => change.concerns snaps).map ChangeInProgress.summary,
      { run with world })

/-- A result's two halves, one of them absent. -/
def okAndErr {ε α : Type} : Except ε α → Option α × Option ε
  | .ok a => (some a, none)
  | .error e => (none, some e)

def settleAfterRefresh (completed : List PlanResult) (error : SystemConfiguratorError)
    (run : SwitchRun σ) : SwitchOutcome × SwitchRun σ :=
  let (answer, run) := ports.read run
  let (finalSnapshot, discoveryError) := okAndErr answer
  match error with
  | .cancelled => (.cancelled completed finalSnapshot discoveryError, run)
  | error => (.failed completed error finalSnapshot discoveryError none, run)

/-- The snapshot that shows the loss of `previous`: no model connected, and it is still there. -/
def lostIn (previous : BackendIdentity) (snapshot : ConnectionSnapshot) : Bool :=
  snapshot.activeState = .disconnected && snapshot.backends.contains previous

/-- `restore_lost_model`, once a snapshot `lost` shows that `restore` is called for. -/
def restoreWith (restore : SwitchPlan) (outcome : SwitchOutcome) (run : SwitchRun σ) :
    SwitchOutcome × SwitchRun σ :=
  let (restored, run) := ports.execute restore .new run
  let (ran, restoreError) := match restored with
    | .ok ran => (ran, none)
    | .error failure => (failure.completed, some failure.error)
  let (reread, run) := ports.read run
  let (finalSnapshot, rereadError) := okAndErr reread
  match outcome with
  | .failed completed error _ _ _ =>
    (.failed (completed ++ ran) error finalSnapshot rereadError restoreError, run)
  | .cancelled completed _ _ =>
    match restoreError with
    | some error =>
      (.failed (completed ++ ran) .cancelled finalSnapshot rereadError (some error), run)
    | none => (.cancelled (completed ++ ran) finalSnapshot rereadError, run)
  | other => (other, run)

/-- When a failed or cancelled switch left no model connected where one was, connect that one
again. -/
def restoreLostModel (plan : SwitchPlan) (outcome : SwitchOutcome) (run : SwitchRun σ) :
    SwitchOutcome × SwitchRun σ :=
  match plan.baseline.activeState with
  | .connected previous =>
    match outcome.finalSnapshot.filter (lostIn previous) with
    | none => (outcome, run)
    | some lost =>
      match SwitchPlan.new lost previous with
      | .error _ => (outcome, run)
      | .ok restore => restoreWith ports restore outcome run
  | _ => (outcome, run)

/-- The rest of `execute_switch`, from the plan's execution on. -/
def carryOut (plan : SwitchPlan) (run : SwitchRun σ) : SwitchOutcome × SwitchRun σ :=
  match ports.execute plan .user run with
  | (.ok completed, run) =>
    match ports.read run with
    | (.ok finalSnapshot, run) =>
      if selectedIsActive finalSnapshot plan.selected then
        (.applied completed finalSnapshot, run)
      else (.disagreed completed finalSnapshot, run)
    | (.error error, run) => (.finalDiscoveryFailed completed error, run)
  | (.error failure, run) =>
    let (outcome, run) := settleAfterRefresh ports failure.completed failure.error run
    restoreLostModel ports plan outcome run

def executeSwitch (plan : SwitchPlan) (run : SwitchRun σ) : SwitchOutcome × SwitchRun σ :=
  match ports.read run with
  | (.error error, run) => (.finalDiscoveryFailed [] error, run)
  | (.ok preflight, run) =>
    if plan.isNoop then
      if preflight = plan.baseline then (.noop preflight, run)
      else (.staleDiscovery preflight, run)
    else if preflight ≠ plan.baseline ∨ plan.selected ∉ preflight.backends then
      (.staleDiscovery preflight, run)
    else if ports.isCancelled run.world then settleAfterRefresh ports [] .cancelled run
    else
      match changeHolding ports plan run with
      | (some change, run) => (.busy change preflight, run)
      | (none, run) => carryOut ports plan run

/-! ## What a plan does -/

theorem SwitchPlan.new_eq_ok {snapshot : ConnectionSnapshot} {selected : BackendIdentity}
    {plan : SwitchPlan} (h : SwitchPlan.new snapshot selected = .ok plan) :
    selected ∈ snapshot.backends ∧ plan.baseline = snapshot ∧ plan.selected = selected ∧
      plan.operations = if connectedBackends snapshot = [selected] then []
        else (connectedBackends snapshot ++ snapshot.strays).map
            (fun backend => privilegedSnapRequest "disconnect" backend.slot) ++
          [privilegedSnapRequest "connect" selected.slot, mynaRestartRequest] := by
  unfold SwitchPlan.new at h
  split at h
  · cases h
  · rename_i hmem
    obtain rfl := Except.ok.inj h
    exact ⟨not_not.mp hmem, rfl, rfl, rfl⟩

/-- There is a plan for each model of the snapshot. -/
theorem SwitchPlan.exists_new {snapshot : ConnectionSnapshot} {selected : BackendIdentity}
    (h : selected ∈ snapshot.backends) : ∃ plan, SwitchPlan.new snapshot selected = .ok plan := by
  unfold SwitchPlan.new
  rw [if_neg (not_not.mpr h)]
  exact ⟨_, rfl⟩

theorem SwitchPlan.new_isNoop {snapshot : ConnectionSnapshot} {selected : BackendIdentity}
    {plan : SwitchPlan} (h : SwitchPlan.new snapshot selected = .ok plan) :
    plan.isNoop = true ↔ connectedBackends snapshot = [selected] := by
  obtain ⟨-, -, -, hops⟩ := SwitchPlan.new_eq_ok h
  rw [SwitchPlan.isNoop, hops]
  by_cases hsel : connectedBackends snapshot = [selected] <;> simp [hsel]

theorem changeHolding_executed (plan : SwitchPlan) (run : SwitchRun σ) :
    (changeHolding ports plan run).2.executed = run.executed := by
  unfold changeHolding
  split <;> rfl

/-! ## Stale plans -/

section

variable {ports} {plan : SwitchPlan} {outcome : SwitchOutcome} {run : SwitchRun σ}
  {snapshot : ConnectionSnapshot}

/-- What settles a failure is a failure or a cancellation. -/
theorem settleAfterRefresh_ne_stale (completed : List PlanResult)
    (error : SystemConfiguratorError) :
    (settleAfterRefresh ports completed error run).1 ≠ .staleDiscovery snapshot := by
  unfold settleAfterRefresh
  cases error <;> nofun

theorem restoreWith_ne_stale (restore : SwitchPlan) (h : outcome ≠ .staleDiscovery snapshot) :
    (restoreWith ports restore outcome run).1 ≠ .staleDiscovery snapshot := by
  unfold restoreWith
  dsimp only
  split
  · nofun
  · split <;> nofun
  · exact h

theorem restoreLostModel_ne_stale (h : outcome ≠ .staleDiscovery snapshot) :
    (restoreLostModel ports plan outcome run).1 ≠ .staleDiscovery snapshot := by
  unfold restoreLostModel
  split
  · split
    · exact h
    · split
      · exact h
      · exact restoreWith_ne_stale _ h
  · exact h

theorem carryOut_ne_stale : (carryOut ports plan run).1 ≠ .staleDiscovery snapshot := by
  unfold carryOut
  split
  · split
    · split <;> nofun
    · nofun
  · exact restoreLostModel_ne_stale (settleAfterRefresh_ne_stale _ _)

/-- A plan is refused as stale only where the connections are not those of its baseline, or the
model asked for is gone. -/
theorem executeSwitch_stale (h : (executeSwitch ports plan run).1 = .staleDiscovery snapshot) :
    (ports.refresh run.world).1 = .ok snapshot ∧
      (snapshot ≠ plan.baseline ∨ plan.selected ∉ snapshot.backends) := by
  unfold executeSwitch at h
  split at h
  · cases h
  · rename_i preflight after hread
    have hanswer : (ports.refresh run.world).1 = .ok preflight := congrArg Prod.fst hread
    split at h
    · split at h
      · cases h
      · rename_i hne
        obtain rfl := SwitchOutcome.staleDiscovery.inj h
        exact ⟨hanswer, Or.inl hne⟩
    · split at h
      · rename_i hchanged
        obtain rfl := SwitchOutcome.staleDiscovery.inj h
        exact ⟨hanswer, hchanged⟩
      · split at h
        · exact absurd h (settleAfterRefresh_ne_stale _ _)
        · split at h
          · cases h
          · exact absurd h carryOut_ne_stale

/-- A plan whose baseline is not what the connections are now is refused. -/
theorem executeSwitch_eq_stale (hread : (ports.refresh run.world).1 = .ok snapshot)
    (hne : snapshot ≠ plan.baseline) :
    (executeSwitch ports plan run).1 = .staleDiscovery snapshot := by
  unfold executeSwitch Ports.read
  rcases hanswer : ports.refresh run.world with ⟨answer, world⟩
  rw [hanswer] at hread
  obtain rfl : answer = .ok snapshot := hread
  dsimp only
  by_cases hnoop : plan.isNoop = true
  · rw [if_pos hnoop, if_neg hne]
  · rw [if_neg hnoop, if_pos (Or.inl hne)]

end

end Config

end Myna
