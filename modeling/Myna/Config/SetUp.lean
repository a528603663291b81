import Myna.Config.OnboardingRuns
import Myna.Config.PlanRuns
import Myna.Lib.Strip
import Myna.Desktop.CommitBuffer

/-!
# Myna — the privileged set-up (`set_up` of `myna_config::adapters::system_configurator`)

A set-up is a plan of `snap` commands that one `pkexec` runs: the flag, the installs, and the
connect of the model. The executor validates the plan, and prints a result for each command up to
the first that fails.

* **`setUpPlan`**, **`setUpArguments`** — what is asked of snapd for some components;
* **`executePlan`** — the plan, handed to the executor, and what its answer comes to;
* **`set_up_named`** — the plan of a run is accepted, and a failure names the component it is of.
-/

namespace Myna

namespace Config

namespace Onboarding

/-! ## The plan -/

structure SetUpPlan where
  flag : Bool
  installs : List String
  connect : Option String

def setUpPlan (steps : List ComponentId) (offer : ModelOffer) : SetUpPlan where
  flag := .userDaemons ∈ steps
  installs := steps.filterMap fun id => (installs id offer).map Prod.fst
  connect := if .model ∈ steps then some offer.snap else none

def setUpArguments (plan : SetUpPlan) : List (List String) :=
  (if plan.flag then [["set", "system", "experimental.user-daemons=true"]] else []) ++
    plan.installs.map (fun snap => ["install", "--edge", snap]) ++
    plan.connect.toList.map fun snap => ["connect", "myna:backend", snap ++ ":provider"]

def setUpOperations (plan : SetUpPlan) : List CommandRequest :=
  (setUpArguments plan).map fun arguments => ⟨"snap", arguments⟩

/-- The operations that the executor is handed. -/
def setUpPlanOf (steps : List ComponentId) (offer : ModelOffer) : List PlanOperation :=
  (setUpOperations (setUpPlan steps offer)).map CommandRequest.operation

/-! ## The executor -/

/-- `CommandError`; what is neither a cancellation nor an exit is its message. -/
inductive CommandError
  | cancelled
  | nonZero (exitStatus : Option ℤ) (stdout stderr : String)
  | other (message : String)

structure CommandOutput where
  exitStatus : Option ℤ
  stdout : String
  stderr : String

def trimmed (text : String) : String := String.ofList (text.toList.strip Desktop.isWhitespace)

def primaryDetail (stderr stdout : String) : String :=
  if trimmed stderr ≠ "" then trimmed stderr
  else if trimmed stdout ≠ "" then trimmed stdout else "privileged command failed"

/-- `SystemConfiguratorError::authorization_denied`. -/
def authorizationDenied (executable : String) (arguments : List String) (exitStatus : Option ℤ)
    (stderr : String) : SystemConfiguratorError :=
  .authorizationDenied (.command executable arguments exitStatus stderr)
    (if trimmed stderr = "" then "authorization denied" else trimmed stderr)

/-- `map_operation_failure`. -/
def mapOperationFailure (failed : PlanResult) : SystemConfiguratorError :=
  let step := FailedStep.command failed.executable failed.arguments failed.exitStatus failed.stderr
  let detail := primaryDetail failed.stderr failed.stdout
  if failed.arguments.head? = some "run" ∧ failed.arguments[2]? = some "set" then
    .valuesRejected step detail
  else .execution step detail

/-- `map_command_error`, of pkexec, but for the exits that `execute_plan` maps itself. -/
def mapCommandError (arguments : List String) : CommandError → SystemConfiguratorError
  | .cancelled => .cancelled
  | .nonZero exitStatus stdout stderr =>
    .execution (.command "pkexec" arguments exitStatus stderr) (primaryDetail stderr stdout)
  | .other message => .execution (.command "pkexec" arguments none "") message

/-- What pkexec prints after refusing an environment variable. -/
def PKEXEC_ENVIRONMENT_REFUSED : String := "This incident has been reported."

/-- `PlanKind::flag`. -/
def planFlag : PlanKind → String
  | .apply => "--apply-plan"
  | .setUp => "--set-up"

section

-- the JSON texts of plans and results, as serde writes and reads them
variable (write : Json → String) (decodeResults : String → Except String (List PlanResult))
-- the path of the executor, and what a run of pkexec with some arguments answers
variable (executor : String) (pkexec : List String → Except CommandError CommandOutput)

/-- What an exit of pkexec that is not zero comes to. -/
def failedPlan (arguments : List String) (exitStatus : Option ℤ) (stdout stderr : String) :
    SystemConfiguratorFailure :=
  let execution := fun message =>
    SystemConfiguratorError.execution (.command "pkexec" arguments exitStatus stderr) message
  if exitStatus = some 126 then ⟨[], .cancelled⟩
  else if exitStatus = some 127 ∧ PKEXEC_ENVIRONMENT_REFUSED.toList <:+: stderr.toList then
    ⟨[], execution (primaryDetail stderr stdout)⟩
  else if exitStatus = some 127 then ⟨[], authorizationDenied "pkexec" arguments exitStatus stderr⟩
  else
    match decodeResults stdout with
    | .ok results =>
      match results.getLast? with
      | some failed =>
        if failed.exitStatus ≠ some 0 then ⟨results.dropLast, mapOperationFailure failed⟩
        else ⟨results.dropLast, execution "apply plan failed without reporting a failed operation"⟩
      | none => ⟨[], execution "apply plan failed without reporting a failed operation"⟩
    | .error _ => ⟨[], execution (primaryDetail stderr stdout)⟩

/-- `execute_plan`. -/
def executePlan (kind : PlanKind) (operations : List CommandRequest) :
    Except SystemConfiguratorFailure (List PlanResult) :=
  match encodePlan kind operations with
  | .error message =>
    .error ⟨[], .execution (.command "pkexec" [] none "") ("invalid apply plan: " ++ message)⟩
  | .ok plan =>
    let arguments := [executor, planFlag kind, write plan]
    match pkexec arguments with
    | .ok output =>
      match decodeResults output.stdout with
      | .ok results => .ok results
      | .error message =>
        .error ⟨[], .execution (.command "pkexec" arguments output.exitStatus output.stderr)
          ("apply plan produced unreadable results: " ++ message)⟩
    | .error (.nonZero exitStatus stdout stderr) =>
      .error (failedPlan decodeResults arguments exitStatus stdout stderr)
    | .error error => .error ⟨[], mapCommandError arguments error⟩

/-- `set_up`. -/
def setUp (plan : SetUpPlan) : Except SystemConfiguratorError Unit :=
  match executePlan write decodeResults executor pkexec .setUp (setUpOperations plan) with
  | .ok _ => .ok ()
  | .error failure => .error failure.error

end

/-! ## What a command is for -/

variable {steps : List ComponentId} {offer : ModelOffer}

/-- The commands that a set-up runs for a component. -/
def argumentsOf (offer : ModelOffer) : ComponentId → List (List String)
  | .userDaemons => [["set", "system", "experimental.user-daemons=true"]]
  | .myna => [["install", "--edge", MYNA_SNAP]]
  | .model => [["install", "--edge", offer.snap],
      ["connect", "myna:backend", offer.snap ++ ":provider"]]
  | _ => []

theorem snap_ne_myna (offer : ModelOffer) : offer.snap ≠ MYNA_SNAP := by
  unfold ModelOffer.snap
  cases offer.family <;> decide

/-- Each command of the plan is for a component of it. -/
theorem mem_setUpArguments {arguments : List String}
    (h : arguments ∈ setUpArguments (setUpPlan steps offer)) :
    ∃ id ∈ steps, arguments ∈ argumentsOf offer id := by
  unfold setUpArguments setUpPlan at h
  dsimp only at h
  rcases List.mem_append.mp h with h | h
  · rcases List.mem_append.mp h with h | h
    · split_ifs at h with hflag
      · exact ⟨.userDaemons, of_decide_eq_true hflag, h⟩
      · cases h
    · obtain ⟨snap, hsnap, rfl⟩ := List.mem_map.mp h
      obtain ⟨id, hid, hinstalls⟩ := List.mem_filterMap.mp hsnap
      refine ⟨id, hid, ?_⟩
      cases id with
      | myna =>
        obtain rfl := Option.some.inj hinstalls
        exact List.mem_singleton_self _
      | model =>
        obtain rfl := Option.some.inj hinstalls
        exact List.mem_cons_self
      | userDaemons | inputMethod | statusSurface => cases hinstalls
  · split_ifs at h with hmodel
    · exact ⟨.model, hmodel, List.mem_cons_of_mem _ h⟩
    · cases h

/-- A failed command is reported for its component. -/
theorem failedSetUpStep_eq {id : ComponentId} {arguments : List String}
    (h : arguments ∈ argumentsOf offer id) (executable : String) (exitStatus : Option ℤ)
    (stderr : String) :
    failedSetUpStep (some (.command executable arguments exitStatus stderr)) = id := by
  cases id with
  | userDaemons =>
    obtain rfl := List.mem_singleton.mp h
    rfl
  | myna =>
    obtain rfl := List.mem_singleton.mp h
    rfl
  | model =>
    rcases List.mem_pair.mp h with rfl | rfl
    · show (if some offer.snap = some MYNA_SNAP then ComponentId.myna else .model) = .model
      exact if_neg fun heq => snap_ne_myna offer (Option.some.inj heq)
    · rfl
  | inputMethod | statusSurface => cases h

theorem operation_setUp {id : ComponentId} {arguments : List String}
    (h : arguments ∈ argumentsOf offer id) :
    ∃ c : Command, c.kind = .setUp ∧ c.operation = ⟨"snap", arguments⟩ := by
  cases id with
  | userDaemons =>
    obtain rfl := List.mem_singleton.mp h
    exact ⟨.userDaemons, rfl, rfl⟩
  | myna =>
    obtain rfl := List.mem_singleton.mp h
    exact ⟨.install .myna, rfl, rfl⟩
  | model =>
    rcases List.mem_pair.mp h with rfl | rfl
    · exact ⟨.install (.family offer.family), rfl, rfl⟩
    · exact ⟨.connect offer.family, rfl, rfl⟩
  | inputMethod | statusSurface => cases h

theorem setUpArguments_ne_nil (h : ∃ id ∈ steps, id.isDesktop = false) :
    setUpArguments (setUpPlan steps offer) ≠ [] := by
  obtain ⟨id, hid, hdesktop⟩ := h
  unfold setUpArguments setUpPlan
  cases id with
  | userDaemons => simp [hid]
  | myna =>
    have hmem : MYNA_SNAP ∈ steps.filterMap fun id => (installs id offer).map Prod.fst :=
      List.mem_filterMap.mpr ⟨.myna, hid, rfl⟩
    simp [List.ne_nil_of_mem hmem]
  | model => simp [hid]
  | inputMethod | statusSurface => cases hdesktop

/-- The executor accepts the plan of any components but the desktop's alone. -/
theorem encodePlan_setUp (h : ∃ id ∈ steps, id.isDesktop = false) :
    encodePlan .setUp (setUpOperations (setUpPlan steps offer)) =
      .ok (planJson (setUpPlanOf steps offer)) := by
  refine encodePlan_iff.mpr ⟨validatePlan_iff.mpr ⟨?_, ?_⟩, rfl⟩
  · simpa [setUpPlanOf, setUpOperations] using setUpArguments_ne_nil h
  · intro op hop
    obtain ⟨request, hrequest, rfl⟩ := List.mem_map.mp hop
    obtain ⟨arguments, harguments, rfl⟩ := List.mem_map.mp hrequest
    obtain ⟨id, -, hid⟩ := mem_setUpArguments harguments
    exact operation_setUp hid

/-! ## A set-up that the user authorized -/

/-- What pkexec answers where it ran the executor. -/
def authorized (print : List PlanResult → String) (run : Config.Run) :
    Except CommandError CommandOutput :=
  let stdout := (run.printed.map print).getD ""
  let stderr := "\n".intercalate run.executor.stderr
  if run.exit = .success then .ok ⟨some 0, stdout, stderr⟩
  else .error (.nonZero (some run.exit.code) stdout stderr)

theorem mapOperationFailure_step (failed : PlanResult) :
    stepOf (mapOperationFailure failed) =
      some (.command failed.executable failed.arguments failed.exitStatus failed.stderr) := by
  unfold mapOperationFailure
  dsimp only
  split_ifs <;> rfl

section Authorized

variable {write : Json → String} {decodeResults : String → Except String (List PlanResult)}
  {executor : String} {pkexec : List String → Except CommandError CommandOutput}
  {print : List PlanResult → String} {outcome : ℕ → Outcome} {serdeError : String}

/-- An executor that a failed operation ended. -/
theorem failedPlan_operation {stdout : String} {results completed : List PlanResult}
    {failed : PlanResult} (hdecode : decodeResults stdout = .ok results)
    (hresults : results = completed ++ [failed]) (hfailed : failed.exitStatus ≠ some 0)
    (arguments : List String) (stderr : String) :
    failedPlan decodeResults arguments (some PlanExit.operationFailed.code) stdout stderr =
      ⟨completed, mapOperationFailure failed⟩ := by
  have hdismissed : some PlanExit.operationFailed.code ≠ some 126 := by decide
  have hdenied : some PlanExit.operationFailed.code ≠ some 127 := by decide
  have hlast : results.getLast? = some failed := by rw [hresults, List.getLast?_concat]
  have hcompleted : results.dropLast = completed := by rw [hresults, List.dropLast_concat]
  unfold failedPlan
  dsimp only
  rw [if_neg hdismissed, if_neg fun h => hdenied h.1, if_neg hdenied, hdecode]
  dsimp only
  rw [hlast]
  dsimp only
  rw [if_pos hfailed, hcompleted]

/-- The plan that was accepted is run, and its results are read back. -/
theorem executePlan_authorized {operations : List CommandRequest}
    (hencode : encodePlan .setUp operations =
      .ok (planJson (operations.map CommandRequest.operation)))
    (hdecode : ∀ results, (runPlan outcome serdeError .setUp
      (planJson (operations.map CommandRequest.operation))).printed = some results →
        decodeResults (print results) = .ok results)
    (hpkexec : pkexec [executor, planFlag .setUp,
      write (planJson (operations.map CommandRequest.operation))] = authorized print
        (runPlan outcome serdeError .setUp (planJson (operations.map CommandRequest.operation)))) :
    ∃ results exit, StopsAtFailure (operations.map CommandRequest.operation) results exit ∧
      (exit = .success →
        executePlan write decodeResults executor pkexec .setUp operations = .ok results) ∧
      ∀ completed failed, results = completed ++ [failed] → failed.exitStatus ≠ some 0 →
        executePlan write decodeResults executor pkexec .setUp operations =
          .error ⟨completed, mapOperationFailure failed⟩ := by
  obtain ⟨results, exit, ex, hrun, hstops, -⟩ :=
    runOperations_spec outcome (operations.map CommandRequest.operation) {}
  have hvalid : validatePlan .setUp (operations.map CommandRequest.operation) = .ok () :=
    (encodePlan_iff.mp hencode).1
  have hplan : runPlan outcome serdeError .setUp
      (planJson (operations.map CommandRequest.operation)) = ⟨some results, exit, ex⟩ := by
    unfold runPlan
    rw [decodePlan_planJson]
    dsimp only
    rw [hvalid]
    dsimp only
    rw [hrun]
  have hread : decodeResults (print results) = .ok results := hdecode results (by rw [hplan])
  rw [hplan] at hpkexec
  refine ⟨results, exit, hstops, fun hexit => ?_, fun completed failed hresults hfailed => ?_⟩
  · unfold executePlan
    rw [hencode]
    dsimp only
    rw [hpkexec, authorized, if_pos hexit]
    dsimp only
    rw [Option.map_some, Option.getD_some, hread]
  · have hnot : exit ≠ .success := fun h =>
      hfailed ((hstops.success.mp h).2 failed (by rw [hresults]; simp))
    obtain ⟨hexit, -⟩ := hstops.failure hnot
    unfold executePlan
    rw [hencode]
    dsimp only
    rw [hpkexec, authorized, if_neg hnot]
    dsimp only
    rw [hexit, Option.map_some, Option.getD_some]
    exact congrArg Except.error (failedPlan_operation hread hresults hfailed _ _)

end Authorized

/-- Myna's install fails, after the flag was set. -/
def installFails : ℕ → Outcome
  | 0 => .output (some 0) "" ""
  | _ => .output (some 1) "" "error: cannot install"

def parakeetOffer : ModelOffer := ⟨.parakeet, 775594000, false⟩

/-- What the executor does of the set-up of a bare machine. -/
def bareRun : Config.Run :=
  runPlan installFails "" .setUp
    (planJson (setUpPlanOf [.userDaemons, .myna, .model] parakeetOffer))

def bareResults : List PlanResult :=
  [⟨"snap", ["set", "system", "experimental.user-daemons=true"], some 0, "", ""⟩,
    ⟨"snap", ["install", "--edge", "myna"], some 1, "", "error: cannot install"⟩]

theorem printed_bareRun : bareRun.printed = some bareResults := by
  decide +kernel

/-- Their text, and its reading. -/
def bareText : String :=
  "[\x7b\"executable\":\"snap\",\"arguments\":[\"set\",\"system\"," ++
    "\"experimental.user-daemons=true\"],\"exit_status\":0,\"stdout\":\"\",\"stderr\":\"\"\x7d," ++
    "\x7b\"executable\":\"snap\",\"arguments\":[\"install\",\"--edge\",\"myna\"]," ++
    "\"exit_status\":1,\"stdout\":\"\",\"stderr\":\"error: cannot install\"\x7d]"

def readBare (text : String) : Except String (List PlanResult) :=
  if text = bareText then .ok bareResults else .error "expected value at line 1 column 1"

end Onboarding

end Config

end Myna
