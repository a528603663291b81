import Mathlib.Data.Prod.Lex
import Myna.Config.ActiveBackend
import Myna.Config.ModelctlConfig

/-!
# Myna — a backend's settings, as rows to edit (`myna_config::presentation`)

What was read of a backend is one snapshot. Its settings become rows: the model and the engine, with
the names that they can have, and every setting of the configuration. A row says what its value may
become, and one changed row is planned as an `ApplyPreview`.

* **`presentConfiguration`** — the rows of a snapshot;
* **`prepareChange`** — the plan of one changed row;
* **`prepareChange_eq_ok`** — where such a plan comes from;
* **`planned_plain`** — a key that is planned for `modelctl set` was read.
-/

namespace Myna

namespace Config

/-! ## Snapshots -/

inductive ServiceState
  | active
  | inactive
  | failed
  | unknown (state : String)
deriving DecidableEq

structure ServiceHealth where
  name : String
  state : ServiceState
deriving DecidableEq

structure BackendStatus where
  services : List ServiceHealth

structure ModelOptions where
  active : Option String
  /-- The names of the options. -/
  options : List String

structure EngineOption where
  name : String
  compatible : Bool

structure EngineOptions where
  active : Option String
  options : List EngineOption

structure BackendSnapshot where
  identity : BackendIdentity
  configuration : BackendConfiguration := .empty
  status : Option BackendStatus := none
  models : Option ModelOptions := none
  engines : Option EngineOptions := none
  errors : Dict BackendSurface BackendSurfaceError := []

namespace BackendSnapshot

def error (snapshot : BackendSnapshot) (surface : BackendSurface) : Option BackendSurfaceError :=
  snapshot.errors.get? surface

/-- What stands for a setting, which for `model` and `engine` is what is active. -/
def value (snapshot : BackendSnapshot) (key : String) : Option ConfigValue :=
  if key = "model" then (snapshot.models.bind ModelOptions.active).map .text
  else if key = "engine" then (snapshot.engines.bind EngineOptions.active).map .text
  else snapshot.configuration.get key

end BackendSnapshot

/-! ## What a value may be -/

inductive Validation
  | any
  | boolean
  | number
  | text
  | positiveNumber
  | nonNegativeNumber
  | nonNegativeInteger
  | choices (names : List String)
  | readOnly
deriving DecidableEq

def F64.isFinite : F64 → Bool
  | .finite _ => true
  | _ => false

/-- `0.0 < x`. -/
def F64.positive : F64 → Bool
  | .finite x => 0 < x
  | .infinite negative => !negative
  | .nan => false

/-- `0.0 <= x`. -/
def F64.nonNegative : F64 → Bool
  | .finite x => 0 ≤ x
  | .infinite negative => !negative
  | .nan => false

def numericValue : ConfigValue → Option F64
  | .integer n => some (.nearest n)
  | .number x => if x.isFinite then some x else none
  | _ => none

section

variable (tr : String → String)

def Validation.valid (value : ConfigValue) : Validation → Bool
  | .any => true
  | .boolean => match value with
    | .boolean _ => true
    | _ => false
  | .number => (numericValue value).isSome
  | .text => match value with
    | .text _ => true
    | _ => false
  | .positiveNumber => (numericValue value).any F64.positive
  | .nonNegativeNumber => (numericValue value).any F64.nonNegative
  | .nonNegativeInteger => match value with
    | .integer n => 0 ≤ n
    | _ => false
  | .choices names => match value with
    | .text choice => names.contains choice
    | _ => false
  | .readOnly => false

def Validation.message : Validation → String
  | .any => tr "value is invalid"
  | .boolean => tr "value must be true or false"
  | .number => tr "value must be a number"
  | .text => tr "value must be text"
  | .positiveNumber => tr "value must be a positive number"
  | .nonNegativeNumber => tr "value must be zero or a positive number"
  | .nonNegativeInteger => tr "value must be a non-negative whole number"
  | .choices names =>
    (tr "value must be one of {choices}").replace "{choices}" (", ".intercalate names)
  | .readOnly => tr "this value cannot be edited"

def Validation.validate (validation : Validation) (value : ConfigValue) : Except String Unit :=
  if validation.valid value then .ok () else .error (validation.message tr)

/-! ## Rows -/

inductive PresentationGroup
  | general
  | runtime
  | advanced
  | sensitive
deriving DecidableEq

/-- Where the rows of a group stand. -/
def PresentationGroup.place : PresentationGroup → ℕ
  | .general => 0
  | .runtime => 1
  | .advanced => 2
  | .sensitive => 3

structure PresentationMetadata where
  title : String
  validation : Validation
  group : PresentationGroup
  order : ℕ

structure PresentationRow where
  key : String
  value : ConfigValue
  metadata : PresentationMetadata

/-- The parts of a key, in lower case, cut before every capital too. -/
def keySegments (key : String) : List (List Char) :=
  let normalized := key.toList.zipIdx.flatMap fun (c, index) =>
    if 0 < index ∧ isAsciiUppercase c then ['.', c.toLower] else [c.toLower]
  normalized.splitOnP fun c => c = '.' || c = '-' || c = '_'

def isSensitiveKey (key : String) : Bool :=
  let segments := keySegments key
  (segments.any fun segment =>
    ["credential", "credentials", "password", "secret", "token"].any (·.toList = segment)) ||
  (segments.zip segments.tail).any fun (first, second) =>
    second = "key".toList &&
      ["access", "api", "encryption", "private", "signing", "ssh"].any (·.toList = first)

/-- `fallback`: the metadata of a key that this program does not know. -/
def fallback (key : String) (value : ConfigValue) : PresentationMetadata :=
  let validation : Validation := match value with
    | .boolean _ => .boolean
    | .integer _ | .number _ => .number
    | .text _ => .text
    | .null => .readOnly
  if isSensitiveKey key then ⟨key, .readOnly, .sensitive, 2 ^ 16 - 1⟩
  else ⟨key, validation, .advanced, 2 ^ 16 - 1⟩

def metadataFor (key : String) (value : ConfigValue) : PresentationMetadata :=
  match key with
  | "model" => ⟨tr "Model", .any, .general, 0⟩
  | "engine" => ⟨tr "Engine", .any, .general, 1⟩
  | "streaming" => ⟨tr "Streaming output", .boolean, .general, 10⟩
  | "sleep-idle-seconds" => ⟨tr "Unload when idle (seconds)", .nonNegativeInteger, .runtime, 20⟩
  | "verbose" => ⟨tr "Verbose logging", .boolean, .advanced, 100⟩
  | "ws.unix-socket" => ⟨tr "Socket path", .text, .advanced, 101⟩
  | "stream-arm-seconds" =>
    ⟨tr "Minimum speech before pause commit (seconds)", .positiveNumber, .advanced, 110⟩
  | "stream-silence-cut-seconds" =>
    ⟨tr "Pause length for commit (seconds)", .positiveNumber, .advanced, 111⟩
  | "stream-force-cut-seconds" =>
    ⟨tr "Maximum uncommitted audio (seconds)", .positiveNumber, .advanced, 112⟩
  | "stream-partial-cadence-seconds" =>
    ⟨tr "Partial result interval (seconds)", .nonNegativeNumber, .advanced, 113⟩
  | "stream-partial-tail-seconds" =>
    ⟨tr "Partial result audio window (seconds)", .nonNegativeNumber, .advanced, 114⟩
  | "compute-type" => ⟨tr "Compute type", .text, .advanced, 120⟩
  | "att-context-size" => ⟨tr "Attention context size", .text, .advanced, 121⟩
  | _ => fallback key value

/-- What rows are sorted by: their group, their order in it, and their key. -/
def PresentationRow.place (row : PresentationRow) : ℕ ×ₗ ℕ ×ₗ String :=
  toLex (row.metadata.group.place, toLex (row.metadata.order, row.key))

/-- The row of a selector, if there is something to choose from. -/
def selectorRow (key : String) (active : Option String) (choices : List String) :
    List PresentationRow :=
  if choices.isEmpty then []
  else
    [⟨key, (active.map ConfigValue.text).getD .null,
      { metadataFor tr key .null with validation := .choices choices }⟩]

def presentConfiguration (configuration : BackendConfiguration) (models : Option ModelOptions)
    (engines : Option EngineOptions) : List PresentationRow :=
  let modelRows := models.toList.flatMap fun models =>
    selectorRow tr "model" models.active models.options
  let engineRows := engines.toList.flatMap fun engines =>
    selectorRow tr "engine" engines.active
      ((engines.options.filter fun engine =>
        engine.compatible || some engine.name = engines.active).map EngineOption.name)
  let rows := modelRows ++ engineRows ++
    configuration.values.map fun entry => ⟨entry.1, entry.2, metadataFor tr entry.1 entry.2⟩
  rows.insertionSort fun left right => left.place ≤ right.place

/-! ## One changed row -/

/-- A page, as far as a change reads it. -/
structure BackendPage where
  identity : BackendIdentity
  snapshot : Option BackendSnapshot

/-- The rows of `build_page`. -/
def BackendPage.rows (page : BackendPage) : List PresentationRow :=
  match page.snapshot with
  | some snapshot => presentConfiguration tr snapshot.configuration snapshot.models snapshot.engines
  | none => []

variable (json : JsonText)

def prepareChange (page : BackendPage) (key : String) (value : ConfigValue) :
    Except PrepareApplyError ApplyPreview :=
  match (page.rows tr).find? fun row => row.key = key with
  | none => .error .noChanges
  | some row =>
    if row.value.eq value then .error .noChanges
    else
      match row.metadata.validation.validate tr value with
      | .error message => .error (.invalid [⟨row.metadata.title, message⟩])
      | .ok () =>
        match StagedChange.new key row.value value with
        | .error error => .error (.invalid [⟨row.metadata.title, error.message⟩])
        | .ok change =>
          ApplyPreview.new json tr
            ((page.snapshot.map BackendSnapshot.identity).getD page.identity) [change]

end

section

variable {json : JsonText} {tr : String → String}

theorem ApplyPreview.new_parts {backend : BackendIdentity} {changes : List StagedChange}
    {preview : ApplyPreview} (h : ApplyPreview.new json tr backend changes = .ok preview) :
    preview.backend = backend ∧
      preview.changes = changes.insertionSort fun left right => left.key ≤ right.key := by
  unfold ApplyPreview.new at h
  split at h
  · cases h
  · split at h
    · cases h
    · dsimp only at h
      split at h
      · obtain rfl := Except.ok.inj h
        exact ⟨rfl, rfl⟩
      · cases h

/-- **Where the plan of one changed row comes from.** The row is one of the page, its value may
become `value`, and the plan is of that change alone. -/
theorem prepareChange_eq_ok {page : BackendPage} {key : String} {value : ConfigValue}
    {preview : ApplyPreview} (h : prepareChange tr json page key value = .ok preview) :
    ∃ row ∈ page.rows tr, row.key = key ∧ row.metadata.validation.valid value = true ∧
      ∃ change : StagedChange, change.key = key ∧ change.proposed = value ∧
        preview.changes = [change] ∧
        ApplyPreview.new json tr preview.backend [change] = .ok preview := by
  unfold prepareChange at h
  split at h
  · cases h
  · rename_i row hrow
    have hkey : row.key = key := by simpa using List.find?_some hrow
    refine ⟨row, List.mem_of_find?_eq_some hrow, hkey, ?_⟩
    split at h
    · cases h
    · split at h
      · cases h
      · rename_i hvalid
        have hvalid : row.metadata.validation.valid value = true := by
          unfold Validation.validate at hvalid
          split at hvalid
          · assumption
          · cases hvalid
        refine ⟨hvalid, ?_⟩
        split at h
        · cases h
        · rename_i change hchange
          obtain ⟨hbackend, hchanges⟩ := ApplyPreview.new_parts h
          have hstaged : change.key = key ∧ change.proposed = value := by
            unfold StagedChange.new at hchange
            split at hchange
            · cases hchange
            · rw [← Except.ok.inj hchange]
              exact ⟨rfl, rfl⟩
          exact ⟨change, hstaged.1, hstaged.2, hchanges, by rw [hbackend]; exact h⟩

theorem not_valid_fallback {key : String} {value : ConfigValue} :
    ¬ (fallback key value).validation.valid .null = true := by
  unfold fallback
  dsimp only
  split
  · simp [Validation.valid]
  · cases value <;> simp [Validation.valid, numericValue]

/-- Only a selector may become null. -/
theorem not_valid_null {key : String} {value : ConfigValue}
    (h : (metadataFor tr key value).validation.valid .null = true) :
    key = "model" ∨ key = "engine" := by
  unfold metadataFor at h
  split at h
  · exact .inl rfl
  · exact .inr rfl
  all_goals
    -- every other validation asks for a kind of value
    first
    | exact absurd h not_valid_fallback
    | simp [Validation.valid, numericValue] at h

/-- A row of a plain key is that of a setting that was read. -/
theorem mem_presentConfiguration {configuration : BackendConfiguration}
    {models : Option ModelOptions} {engines : Option EngineOptions} {row : PresentationRow}
    (h : row ∈ presentConfiguration tr configuration models engines)
    (hmodel : row.key ≠ "model") (hengine : row.key ≠ "engine") :
    (row.key, row.value) ∈ configuration.values ∧
      row.metadata = metadataFor tr row.key row.value := by
  have hselector : ∀ {key active choices}, row ∈ selectorRow tr key active choices →
      row.key = key := by
    intro key active choices hmem
    unfold selectorRow at hmem
    split at hmem
    · cases hmem
    · rw [List.mem_singleton.mp hmem]
  unfold presentConfiguration at h
  rw [List.mem_insertionSort, List.mem_append, List.mem_append, List.mem_flatMap,
    List.mem_flatMap, List.mem_map] at h
  rcases h with (⟨_, -, hmem⟩ | ⟨_, -, hmem⟩) | ⟨entry, hentry, rfl⟩
  · exact absurd (hselector hmem) hmodel
  · exact absurd (hselector hmem) hengine
  · exact ⟨hentry, rfl⟩

/-- **A plain key that is planned was read**, and its value is one that can be written. -/
theorem planned_plain {page : BackendPage} {key : String} {value : ConfigValue}
    {preview : ApplyPreview} (h : prepareChange tr json page key value = .ok preview)
    (hmodel : key ≠ "model") (hengine : key ≠ "engine") :
    IsKey key.toList ∧ value ≠ .null ∧
      ∃ argument, serializeAssignment json tr key value = .ok argument := by
  obtain ⟨row, hrow, hkey, hvalid, change, hchangeKey, hchangeValue, hchanges, hnew⟩ :=
    prepareChange_eq_ok h
  obtain ⟨snapshot, hrow⟩ : ∃ snapshot : BackendSnapshot,
      row ∈ presentConfiguration tr snapshot.configuration snapshot.models snapshot.engines := by
    unfold BackendPage.rows at hrow
    split at hrow
    · exact ⟨_, hrow⟩
    · cases hrow
  obtain ⟨hentry, hmetadata⟩ := mem_presentConfiguration hrow (by rwa [hkey]) (by rwa [hkey])
  refine ⟨?_, ?_, ?_⟩
  · have hmem : key ∈ Dict.keys snapshot.configuration.values := by
      rw [← hkey]
      exact List.mem_map_of_mem hentry
    obtain ⟨read, hread⟩ := Dict.mem_keys.mp hmem
    exact BackendConfiguration.isKey hread
  · rintro rfl
    rw [hmetadata] at hvalid
    rcases not_valid_null hvalid with hselector | hselector
    · exact hmodel (hkey ▸ hselector)
    · exact hengine (hkey ▸ hselector)
  · obtain ⟨-, app, gathered, -, hgathers, -⟩ := ApplyPreview.new_eq_ok hnew
    have hplain : change ∈
        plain ([change].insertionSort fun left right => left.key ≤ right.key) := by
      simp [plain, hchangeKey, hmodel, hengine]
    have hserialized := hgathers.serialized change hplain
    rw [hchangeKey, hchangeValue] at hserialized
    exact ⟨_, hserialized⟩

/-- A selector that is planned becomes a text. -/
theorem planned_selector {page : BackendPage} {key : String} {value : ConfigValue}
    {preview : ApplyPreview} (h : prepareChange tr json page key value = .ok preview)
    (hkey : key = "model" ∨ key = "engine") : ∃ name, value = .text name := by
  obtain ⟨row, -, -, -, change, hchangeKey, hchangeValue, -, hnew⟩ := prepareChange_eq_ok h
  obtain ⟨-, app, gathered, -, hgathers, -⟩ := ApplyPreview.new_eq_ok hnew
  have hmem : change ∈ [change].insertionSort fun left right => left.key ≤ right.key := by simp
  obtain ⟨name, hname⟩ := hgathers.texts change hmem (by rwa [hchangeKey])
  exact ⟨name, hchangeValue.symm.trans hname⟩

end

end Config

end Myna
