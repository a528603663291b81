import Myna.Lib.Json
import Myna.Lib.Strip

/-!
# Myna — the privileged plan (`myna_config::apply_plan`)

A plan is a list of `snap` commands that run as root. The unprivileged side encodes it; the executor
decodes it, accepts it only if every operation has one of the shapes of its kind, and runs the
operations in order until one fails. An install the store answered with an error that may not recur
runs once more.

* **`validatePlan`** — the allowlists of the two kinds;
* **`encodePlan`**, **`decodePlan`** — the plan as a JSON document;
* **`runPlan`** — the executor, over what each process answers.
-/

namespace Myna

namespace Config

/-! ## Names -/

/-- A backend family Myna knows. -/
inductive ModelFamily
  | parakeet
  | whisper
  | funAsr
deriving DecidableEq

namespace ModelFamily

def ALL : List ModelFamily := [.parakeet, .whisper, .funAsr]

def snapName : ModelFamily → String
  | .parakeet => "myna-parakeet"
  | .funAsr => "myna-funasr"
  | .whisper => "myna-whisper"

def fromSnapName (snapName : String) : Option ModelFamily :=
  ALL.find? fun family => family.snapName = snapName

end ModelFamily

def MYNA_SNAP : String := "myna"

def isAsciiLowercase (c : Char) : Bool := 'a' ≤ c && c ≤ 'z'

def isAsciiDigit (c : Char) : Bool := '0' ≤ c && c ≤ '9'

def isAsciiUppercase (c : Char) : Bool := 'A' ≤ c && c ≤ 'Z'

/-- The loop over the name; a byte of a character that is not ASCII is none of those it takes. -/
def snapNameChars : List Char → Bool → Bool
  | [], _ => true
  | c :: chars, prevHyphen =>
    if isAsciiLowercase c || isAsciiDigit c then snapNameChars chars false
    else if c = '-' then
      if prevHyphen then false else snapNameChars chars true
    else false

def isValidSnapName (name : String) : Bool :=
  if name.isEmpty || 40 < name.utf8ByteSize then false
  else if !name.toList.head?.any (fun c => isAsciiLowercase c || isAsciiDigit c) then false
  else if name.toList.getLast? = some '-' then false
  else snapNameChars name.toList false

/-- `is_modelctl_app`: a snap, or one of its commands. -/
def isModelctlApp (app : String) : Bool :=
  match List.splitOnce ['.'] app.toList with
  | some (snap, command) =>
    isValidSnapName (String.ofList snap) && isValidSnapName (String.ofList command)
  | none => isValidSnapName app

def isConfigKey (key : String) : Bool :=
  !key.isEmpty && key.toList.head? ≠ some '-' &&
    key.toList.all fun c => isAsciiLowercase c || isAsciiUppercase c || isAsciiDigit c ||
      c = '.' || c = '-' || c = '_'

/-! ## Validating -/

/-- Which privileged plan the executor runs. -/
inductive PlanKind
  | apply
  | setUp
deriving DecidableEq

def ALLOWED_EXECUTABLE : String := "snap"

def MODELCTL_TAIL : List String := ["--assume-yes", "--no-restart"]

structure PlanOperation where
  executable : String
  arguments : List String
deriving DecidableEq

/-- Every element in turn, until one is refused. -/
def checkAll {α ε : Type} (check : α → Except ε Unit) : List α → Except ε Unit
  | [] => .ok ()
  | a :: rest =>
    match check a with
    | .ok () => checkAll check rest
    | .error e => .error e

def unexpected (args : List String) : String :=
  "unexpected operation: " ++ ALLOWED_EXECUTABLE ++ " " ++ " ".intercalate args

def isMynas (snap : String) : Bool := snap = MYNA_SNAP || (ModelFamily.fromSnapName snap).isSome

/-- `slot.strip_suffix(":provider")`. -/
def providerOf (slot : String) : Option String :=
  (slot.toList.stripSuffix ":provider".toList).map String.ofList

def validateSetUp (args : List String) : Except String Unit :=
  match args with
  | ["set", "system", "experimental.user-daemons=true"] => .ok ()
  | ["install", "--edge", snap] =>
    if isMynas snap then .ok () else .error (snap ++ " is not one of Myna's snaps")
  | ["connect", "myna:backend", slot] =>
    match providerOf slot with
    | some snap =>
      if (ModelFamily.fromSnapName snap).isSome then .ok ()
      else .error (slot ++ " is not a model's provider slot")
    | none => .error (slot ++ " is not a model's provider slot")
  | _ => .error (unexpected args)

def validateAssignment (assignment : String) : Except String Unit :=
  match List.splitOnce ['='] assignment.toList with
  | none => .error ("assignment " ++ assignment ++ " is not key=value")
  | some (key, _) =>
    if isConfigKey (String.ofList key) then .ok ()
    else .error ("invalid configuration key " ++ String.ofList key)

/-- An argument that a program may take for an option. -/
def isOption (arg : String) : Bool := arg.toList.head? = some '-'

def validateApply (args : List String) : Except String Unit :=
  match args with
  | ["restart", snap] =>
    if isValidSnapName snap then .ok () else .error ("invalid snap name " ++ snap)
  | "run" :: app :: "set" :: rest =>
    if isModelctlApp app then
      match rest.stripSuffix MODELCTL_TAIL with
      | none => .error "modelctl set must end with --assume-yes --no-restart"
      | some assignments =>
        if assignments.isEmpty then .error "modelctl set has no assignments"
        else checkAll validateAssignment assignments
    else .error ("invalid modelctl app " ++ app)
  | ["run", app, "prune-cache"] =>
    if isModelctlApp app then .ok () else .error ("invalid modelctl app " ++ app)
  | "run" :: app :: "use-model" :: model :: tail =>
    if isModelctlApp app then
      if model.isEmpty || isOption model then .error ("invalid model " ++ model)
      else if tail ≠ MODELCTL_TAIL then
        .error "use-model must end with --assume-yes --no-restart"
      else .ok ()
    else .error ("invalid modelctl app " ++ app)
  | "run" :: app :: "use-engine" :: engine :: tail =>
    if isModelctlApp app then
      if engine.isEmpty || (isOption engine && engine ≠ "--auto") then
        .error ("invalid engine " ++ engine)
      else if tail ≠ MODELCTL_TAIL then
        .error "use-engine must end with --assume-yes --no-restart"
      else .ok ()
    else .error ("invalid modelctl app " ++ app)
  | _ => .error (unexpected args)

def validateOperation (kind : PlanKind) (operation : PlanOperation) : Except String Unit :=
  if operation.executable ≠ ALLOWED_EXECUTABLE then
    .error ("unexpected executable " ++ operation.executable)
  else
    match kind with
    | .apply => validateApply operation.arguments
    | .setUp => validateSetUp operation.arguments

def validatePlan (kind : PlanKind) (plan : List PlanOperation) : Except String Unit :=
  if plan.isEmpty then .error "plan has no operations"
  else checkAll (validateOperation kind) plan

/-! ## Encoding -/

/-- What a plan takes of a `CommandRequest`. -/
structure CommandRequest where
  executable : String
  arguments : List String

def CommandRequest.operation (request : CommandRequest) : PlanOperation :=
  ⟨request.executable, request.arguments⟩

def PlanOperation.toJson (operation : PlanOperation) : Json :=
  .obj [("executable", .str operation.executable),
    ("arguments", .arr (operation.arguments.map Json.str))]

def planJson (plan : List PlanOperation) : Json := .arr (plan.map PlanOperation.toJson)

def encodePlan (kind : PlanKind) (operations : List CommandRequest) : Except String Json :=
  let plan := operations.map CommandRequest.operation
  match validatePlan kind plan with
  | .ok () => .ok (planJson plan)
  | .error message => .error message

/-- The one entry of a key: a key that stands twice is an error. -/
def onlyEntry (fields : List (String × Json)) (key : String) : Option Json :=
  match fields.filter fun entry => entry.1 = key with
  | [(_, value)] => some value
  | _ => none

def readArguments : Json → Option (List String) := Json.readAll Json.asStr

/-- An operation, from an object or from the list of its two fields. -/
def readOperation : Json → Option PlanOperation
  | .obj fields => do
    let executable ← (onlyEntry fields "executable").bind Json.asStr
    let arguments ← (onlyEntry fields "arguments").bind readArguments
    some ⟨executable, arguments⟩
  | .arr [executable, arguments] => do
    let executable ← executable.asStr
    let arguments ← readArguments arguments
    some ⟨executable, arguments⟩
  | _ => none

def decodePlan : Json → Option (List PlanOperation) := Json.readAll readOperation

/-! ## Store errors -/

/-- A store answer snapd gave up on. -/
structure StoreError where
  status : ℕ
  method : String
  url : String
deriving DecidableEq

def digitValue (c : Char) : ℕ := c.toNat - '0'.toNat

/-- `u16::from_str`. -/
def parseU16 (text : List Char) : Option ℕ :=
  let digits := match text with
    | '+' :: rest => rest
    | _ => text
  let value := digits.foldl (fun n c => 10 * n + digitValue c) 0
  if digits ≠ [] ∧ digits.all isAsciiDigit ∧ value < 2 ^ 16 then some value else none

namespace StoreError

def find (text : String) : Option StoreError := do
  let (_, rest) ← List.splitOnce "got unexpected HTTP status code ".toList text.toList
  let (status, rest) ← List.splitOnce " via ".toList rest
  let (method, rest) ← List.splitOnce " to \"".toList rest
  let (url, _) ← List.splitOnce ['"'] rest
  let status ← parseU16 status
  some ⟨status, String.ofList method, String.ofList url⟩

def transient (error : StoreError) : Bool :=
  error.status = 408 || error.status = 429 || (500 ≤ error.status && error.status ≤ 599)

def evidence (error : StoreError) (snap : String) (retrying : Bool) : String :=
  "myna-config: store: HTTP " ++ toString error.status ++ " from " ++ error.method ++ " " ++
    error.url ++ " installing " ++ snap ++ "; " ++ if retrying then "retrying" else "giving up"

end StoreError

/-! ## Running -/

structure PlanResult where
  executable : String
  arguments : List String
  exitStatus : Option ℤ
  stdout : String
  stderr : String
deriving DecidableEq

def PlanResult.operation (result : PlanResult) : PlanOperation :=
  ⟨result.executable, result.arguments⟩

inductive PlanExit
  | success
  | operationFailed
  | invalidPlan
deriving DecidableEq

def PlanExit.code : PlanExit → ℤ
  | .success => 0
  | .operationFailed => 1
  | .invalidPlan => 2

/-- What a process answers: it ran, or it could not be started. -/
inductive Outcome
  | output (status : Option ℤ) (stdout stderr : String)
  | error (message : String)

/-- `execute`, of a process that answers `outcome`. -/
def resultOf (operation : PlanOperation) : Outcome → PlanResult
  | .output status stdout stderr =>
    ⟨operation.executable, operation.arguments, status, stdout, stderr⟩
  | .error message =>
    ⟨operation.executable, operation.arguments, none, "",
      "cannot run " ++ operation.executable ++ ": " ++ message⟩

/-- What the executor has done: the processes it ran, and what it wrote to stderr. -/
structure Executor where
  ran : List PlanResult := []
  stderr : List String := []

section

-- what the `n`-th process of the executor answers
variable (outcome : ℕ → Outcome)

def execute (ex : Executor) (operation : PlanOperation) : PlanResult × Executor :=
  let result := resultOf operation (outcome ex.ran.length)
  (result, { ex with ran := ex.ran ++ [result] })

def storeError (result : PlanResult) : Option StoreError :=
  if result.exitStatus ≠ some 0 then StoreError.find result.stderr else none

def runOperation (ex : Executor) (operation : PlanOperation) : PlanResult × Executor :=
  let (result, ex) := execute outcome ex operation
  match operation.arguments with
  | ["install", "--edge", snap] =>
    match (storeError result).filter StoreError.transient with
    | none => (result, ex)
    | some error =>
      let ex := { ex with stderr := ex.stderr ++ [error.evidence snap true] }
      let (result, ex) := execute outcome ex operation
      match storeError result with
      | none => (result, ex)
      | some error => (result, { ex with stderr := ex.stderr ++ [error.evidence snap false] })
  | _ => (result, ex)

/-- The loop over the operations: their results, up to the first failure. -/
def runOperations : Executor → List PlanOperation → List PlanResult × PlanExit × Executor
  | ex, [] => ([], .success, ex)
  | ex, operation :: plan =>
    let (result, ex) := runOperation outcome ex operation
    if result.exitStatus ≠ some 0 then ([result], .operationFailed, ex)
    else
      let (results, exit, ex) := runOperations ex plan
      (result :: results, exit, ex)

/-- What the executor prints, how it exits, and what it has done. -/
structure Run where
  printed : Option (List PlanResult)
  exit : PlanExit
  executor : Executor

/-- `run_plan`, on a parsed document; `serdeError` is what is said of one that is no plan. -/
def runPlan (serdeError : String) (kind : PlanKind) (json : Json) : Run :=
  match decodePlan json with
  | none => ⟨none, .invalidPlan, { stderr := ["myna-config: invalid apply plan: " ++ serdeError] }⟩
  | some plan =>
    match validatePlan kind plan with
    | .error message =>
      ⟨none, .invalidPlan, { stderr := ["myna-config: invalid apply plan: " ++ message] }⟩
    | .ok () =>
      let (results, exit, ex) := runOperations outcome {} plan
      ⟨some results, exit, ex⟩

end

end Config

end Myna
