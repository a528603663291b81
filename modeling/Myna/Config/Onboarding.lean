import Myna.Config.ActiveBackend
import Myna.Config.ApplyPlan

/-!
# Myna — what a machine is missing (`myna_config::onboarding`, the run of `onboarding_ui`)

The components that dictation needs, how a reading of the machine assesses them, and the run that
installs those that are missing: the flag and the snaps in one privileged set-up, then the pieces of
the desktop one by one. The machine is read again after every step.

* **`assess`**, **`installPlan`** — what is missing, and what of it the wizard can do;
* **`turn`** — the step that a run takes next, of a reading;
* **`installAll`** — the run, which takes no component twice and so ends.
-/

namespace Myna

namespace Config

namespace Onboarding

/-! ## Components -/

inductive ComponentId
  | userDaemons
  | myna
  | model
  | inputMethod
  | statusSurface
deriving DecidableEq

namespace ComponentId

def ALL : List ComponentId := [.userDaemons, .myna, .model, .inputMethod, .statusSurface]

def isDesktop : ComponentId → Bool
  | .inputMethod | .statusSurface => true
  | _ => false

def required (id : ComponentId) : Bool := !id.isDesktop

end ComponentId

inductive Blocker
  | shadowed
  | turnedOff
  | incompatible
  | locked
deriving DecidableEq

/-- What the desktop says of a component (`myna_platform::components`). -/
inductive ComponentStatus
  | active
  | activeAfterRelogin
  | inactive
  | needsRelogin
  | blocked (blocker : Blocker)
  | failed
  | unavailable
deriving DecidableEq

inductive Unavailable
  | notInstalled
  | shadowed
  | turnedOff
  | failed
  | incompatible
  | locked
deriving DecidableEq

/-- `Unavailable::of`. -/
def Unavailable.of : ComponentStatus → Option Unavailable
  | .blocked .shadowed => some .shadowed
  | .blocked .turnedOff => some .turnedOff
  | .blocked .incompatible => some .incompatible
  | .blocked .locked => some .locked
  | .failed => some .failed
  | .unavailable => some .notInstalled
  | _ => none

inductive ComponentState
  | satisfied
  | afterRelogin
  | missing
  | unavailable (why : Unavailable)
deriving DecidableEq

/-- `ComponentState::of`. -/
def ComponentState.of : ComponentStatus → ComponentState
  | .active => .satisfied
  | .activeAfterRelogin => .afterRelogin
  | .inactive | .needsRelogin => .missing
  | status => .unavailable ((Unavailable.of status).getD .notInstalled)

structure Component where
  id : ComponentId
  state : ComponentState
deriving DecidableEq

namespace Component

def satisfied (c : Component) : Bool :=
  match c.state with
  | .satisfied | .afterRelogin => true
  | _ => false

def lacksInputMethod (c : Component) : Bool :=
  c.id = .inputMethod &&
    match c.state with
    | .missing | .unavailable .notInstalled | .unavailable .incompatible => true
    | _ => false

/-- Dictation cannot work while this stands. -/
def blocks (c : Component) : Bool := (c.id.required && !c.satisfied) || c.lacksInputMethod

end Component

/-! ## A reading -/

/-- What is observed of the machine. -/
structure Machine where
  userDaemons : Bool := false
  mynaInstalled : Bool := false
  backendDiscovered : Bool := false
  statusSurface : ComponentStatus := .unavailable
  /-- None where it is not Myna's to set up. -/
  inputMethod : Option ComponentStatus := none

def installed (satisfied : Bool) : ComponentState := if satisfied then .satisfied else .missing

/-- The state of a component; none of one that is not listed. -/
def Machine.state (m : Machine) : ComponentId → Option ComponentState
  | .userDaemons => some (installed m.userDaemons)
  | .myna => some (installed m.mynaInstalled)
  | .model => some (installed m.backendDiscovered)
  | .inputMethod => m.inputMethod.map ComponentState.of
  | .statusSurface => some (.of m.statusSurface)

def assess (m : Machine) : List Component :=
  ComponentId.ALL.filterMap fun id => (m.state id).map fun state => ⟨id, state⟩

/-- What snapd is still installing is missing until it is done. -/
def whileInstalling (components : List Component) (installing : List ComponentId) :
    List Component :=
  components.map fun c => if c.id ∈ installing then { c with state := .missing } else c

/-- The machine, and what is being installed on it, as the wizard reads them. -/
structure Reading where
  machine : Machine
  installing : List ComponentId := []

/-- `shown`. -/
def Reading.shown (r : Reading) : List Component := whileInstalling (assess r.machine) r.installing

/-! ## The plan -/

structure ModelOffer where
  family : ModelFamily
  downloadBytes : ℕ
  upperBound : Bool

def ModelOffer.snap (offer : ModelOffer) : String := offer.family.snapName

def MYNA_DOWNLOAD_BYTES : ℕ := 10133504

/-- The snap that installs a component, and what it downloads. -/
def installs (id : ComponentId) (offer : ModelOffer) : Option (String × ℕ) :=
  match id with
  | .myna => some (MYNA_SNAP, MYNA_DOWNLOAD_BYTES)
  | .model => some (offer.snap, offer.downloadBytes)
  | _ => none

def needsOnboarding (components : List Component) : Bool := components.any Component.blocks

def installPlan (components : List Component) : List ComponentId :=
  (components.filter fun c => c.state = .missing).map Component.id

def nextInstall (components : List Component) (done : List ComponentId) : Option ComponentId :=
  (installPlan components).find? fun id => id ∉ done

def setUpSteps (components : List Component) (done : List ComponentId) : List ComponentId :=
  if (nextInstall components done).all ComponentId.isDesktop then []
  else (installPlan components).filter fun id => id ∉ done && !id.isDesktop

/-- Nothing that the wizard can install is missing. -/
def settled (components : List Component) : Bool :=
  !needsOnboarding components && (installPlan components).isEmpty

inductive InstallView
  | offer
  | installing (id : ComponentId)
  | blocked
  | installed
deriving DecidableEq

def installView (components : List Component) : Option ComponentId → InstallView
  | some id => .installing id
  | none =>
    if settled components then .installed
    else if (installPlan components).isEmpty then .blocked else .offer

/-! ## The run -/

/-- A step of the run: a privileged set-up, or a piece of the desktop. -/
inductive Step
  | setUp (steps : List ComponentId)
  | desktop (id : ComponentId)
deriving DecidableEq

def Step.components : Step → List ComponentId
  | .setUp steps => steps
  | .desktop id => [id]

def Step.isSetUp : Step → Bool
  | .setUp _ => true
  | .desktop _ => false

/-- The step that follows those which have taken `done`. -/
def turn (components : List Component) (done : List ComponentId) : Option Step :=
  match nextInstall components done with
  | none => none
  | some id =>
    if setUpSteps components done = [] then some (.desktop id)
    else some (.setUp (setUpSteps components done))

/-- The step that the report of a failed set-up names. -/
def failedSetUpStep : Option FailedStep → ComponentId
  | some (.command _ arguments _ _) =>
    match arguments.head? with
    | some "install" => if arguments.getLast? = some MYNA_SNAP then .myna else .model
    | some "connect" => .model
    | _ => .userDaemons
  | _ => .userDaemons

/-- `SystemConfiguratorError::step`. -/
def stepOf : SystemConfiguratorError → Option FailedStep
  | .cancelled => none
  | .authorizationDenied step _ | .valuesRejected step _ | .execution step _ => some step

/-- The component that a step failed for. -/
def Step.failed (error : SystemConfiguratorError) : Step → ComponentId
  | .setUp _ => failedSetUpStep (stepOf error)
  | .desktop id => id

/-- What a step takes is missing, and was not taken. -/
theorem turn_taken {components : List Component} {done : List ComponentId} {step : Step}
    (h : turn components done = some step) :
    step.components ≠ [] ∧ ∀ id ∈ step.components, id ∈ installPlan components ∧ id ∉ done := by
  unfold turn at h
  cases hnext : nextInstall components done with
  | none =>
    rw [hnext] at h
    cases h
  | some id =>
    rw [hnext] at h
    dsimp only at h
    split_ifs at h with hempty
    · obtain rfl := Option.some.inj h
      have hid := List.find?_some hnext
      refine ⟨List.cons_ne_nil _ _, fun id' hid' => ?_⟩
      obtain rfl := List.mem_singleton.mp hid'
      exact ⟨List.mem_of_find?_eq_some hnext, of_decide_eq_true hid⟩
    · obtain rfl := Option.some.inj h
      refine ⟨hempty, fun id' hid' => ?_⟩
      unfold Step.components setUpSteps at hid'
      split_ifs at hid'
      · cases hid'
      · obtain ⟨hplan, hnot⟩ := List.mem_filter.mp hid'
        rw [Bool.and_eq_true, decide_eq_true_eq] at hnot
        exact ⟨hplan, hnot.1⟩

/-- How many components a run has not taken. -/
def untaken (done : List ComponentId) : ℕ := (ComponentId.ALL.filter (· ∉ done)).length

theorem untaken_lt {done : List ComponentId} {taken : List ComponentId} (hne : taken ≠ [])
    (h : ∀ id ∈ taken, id ∉ done) : untaken (done ++ taken) < untaken done := by
  obtain ⟨id, rest, rfl⟩ := List.exists_cons_of_ne_nil hne
  have hid : id ∉ done := h id List.mem_cons_self
  have hall : id ∈ ComponentId.ALL := by cases id <;> decide
  have hfilter : ComponentId.ALL.filter (· ∉ done ++ id :: rest) =
      (ComponentId.ALL.filter (· ∉ done)).filter (· ∉ id :: rest) := by
    rw [List.filter_filter]
    refine List.filter_congr fun other _ => ?_
    rw [← Bool.decide_and, decide_eq_decide, List.mem_append, not_or, and_comm]
  rw [untaken, untaken, hfilter, List.length_filter_lt_length_iff_exists]
  exact ⟨id, List.mem_filter.mpr ⟨hall, decide_eq_true hid⟩, by simp⟩

/-- What a run did: the steps that it took, and the component and the error that it stopped at. -/
structure Run where
  steps : List Step := []
  failure : Option (ComponentId × SystemConfiguratorError) := none

/-- The loop of `install_all` from its `n`-th turn, where `readings n` is what is shown at the turn
and `outcomes n` what its step comes to. -/
def installAll (readings : ℕ → Reading) (outcomes : ℕ → Except SystemConfiguratorError Unit)
    (n : ℕ) (done : List ComponentId) : Run :=
  match _hturn : turn (readings n).shown done with
  | none => {}
  | some step =>
    match outcomes n with
    | .error error => { steps := [step], failure := some (step.failed error, error) }
    | .ok () =>
      let run := installAll readings outcomes (n + 1) (done ++ step.components)
      { run with steps := step :: run.steps }
termination_by untaken done
decreasing_by
  exact untaken_lt (turn_taken _hturn).1 fun id hid => ((turn_taken _hturn).2 id hid).2

end Onboarding

end Config

end Myna
