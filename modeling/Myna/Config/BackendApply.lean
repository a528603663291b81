import Myna.Config.Connections
import Myna.Config.PlanShapes
import Myna.Desktop.CommitBuffer

/-!
# Myna — applying a backend's settings (`myna_config::backend_apply`)

The user's changes become one privileged plan: `modelctl set` for the plain keys, `use-model` and
`use-engine` for the two selectors, a restart, and a pruning of what the selection no longer uses.
What cannot be written as an operation is reported before there is a plan.

* **`ApplyPreview.new`** — the plan of a list of changes;
* **`validatePlan_preview_iff`** — when the executor takes that plan.
-/

/-! ## Stable sorting -/

namespace List

variable {α β : Type*} [LinearOrder β] (f : α → β) (b : β)

theorem filter_orderedInsert (a : α) (l : List α) :
    (l.orderedInsert (fun x y => f x ≤ f y) a).filter (fun x => f x = b) =
      (a :: l).filter fun x => f x = b := by
  induction l with
  | nil => rfl
  | cons c l ih =>
    rw [orderedInsert_cons]
    split
    · rfl
    · rename_i hle
      have hlt : f c < f a := lt_of_not_ge hle
      rw [filter_cons, ih]
      by_cases ha : f a = b
      · have hc : ¬ f c = b := fun h => (h.trans ha.symm).not_lt hlt
        simp [ha, hc]
      · simp [ha, filter_cons]

/-- Sorting by a key leaves the elements of one key in their order. -/
theorem filter_insertionSort (l : List α) :
    (l.insertionSort fun x y => f x ≤ f y).filter (fun x => f x = b) =
      l.filter fun x => f x = b := by
  induction l with
  | nil => rfl
  | cons a l ih =>
    rw [insertionSort_cons, filter_orderedInsert, filter_cons, filter_cons, ih]

end List

namespace Myna

namespace Config

/-! ## Changes -/

/-- An `f64`. -/
inductive F64
  | finite (x : ℚ)
  | infinite (negative : Bool)
  | nan
deriving DecidableEq

inductive ConfigValue
  | null
  | boolean (b : Bool)
  | integer (n : ℤ)
  | number (x : F64)
  | text (s : String)
deriving DecidableEq

/-- `==`, where a NaN is not itself. -/
def ConfigValue.eq (a b : ConfigValue) : Bool := a = b && a ≠ .number .nan

/-- `text.trim().is_empty()`. -/
def isBlank (text : String) : Bool := text.toList.all Desktop.isWhitespace

structure ValidationError where
  field : String
  message : String
deriving DecidableEq

/-- A key that is not blank, and the value it should get. -/
structure StagedChange where
  key : String
  proposed : ConfigValue
  keyed : isBlank key = false
deriving DecidableEq

def StagedChange.new (key : String) (original proposed : ConfigValue) :
    Except ValidationError StagedChange :=
  if h : isBlank key = true then .error ⟨"key", "configuration key is empty"⟩
  else if original.eq proposed then .error ⟨key, "staged value is unchanged"⟩
  else .ok ⟨key, proposed, Bool.eq_false_iff.mpr h⟩

structure ValidationIssue where
  title : String
  message : String
deriving DecidableEq

inductive PrepareApplyError
  | noChanges
  | invalid (issues : List ValidationIssue)
deriving DecidableEq

structure ApplyPreview where
  backend : BackendIdentity
  changes : List StagedChange
  operations : List CommandRequest

/-! ## Operations -/

def modelctlSetOperation (app : String) (assignments : List String) : CommandRequest :=
  ⟨"snap", ["run", app, "set"] ++ assignments ++ ["--assume-yes", "--no-restart"]⟩

def modelctlOperation (app selector : String) (value : Option String) : CommandRequest :=
  ⟨"snap", ["run", app, selector, value.getD "--auto"] ++ ["--assume-yes", "--no-restart"]⟩

def modelctlPruneOperation (app : String) : CommandRequest := ⟨"snap", ["run", app, "prune-cache"]⟩

section

/-- How a number and a text are written as JSON. -/
structure JsonText where
  number : ℚ → String
  text : String → String

variable (json : JsonText) (tr : String → String)

def serializeValue : ConfigValue → Except String String
  | .null => .ok "null"
  | .boolean value => .ok (if value then "true" else "false")
  | .integer value => .ok (toString value)
  | .number (.finite value) => .ok (json.number value)
  | .number _ => .error (tr "value must be a finite number")
  | .text value => .ok (json.text value)

def serializeAssignment (key : String) (value : ConfigValue) : Except String String :=
  match serializeValue json tr value with
  | .ok serialized => .ok (key ++ "=" ++ serialized)
  | .error message => .error message

def validateBackendIdentity (backend : BackendIdentity) : List ValidationIssue :=
  if isBlank backend.snapName then
    [⟨tr "Model", tr "the model's restart command could not be built"⟩]
  else []

/-! ## The preview -/

/-- What the loop over the changes has gathered. -/
structure Gathered where
  issues : List ValidationIssue
  assignments : List String := []
  model : Option String := none
  engine : Option String := none

def Gathered.change (gathered : Gathered) (change : StagedChange) : Gathered :=
  if change.key = "model" ∨ change.key = "engine" then
    match change.proposed with
    | .text value =>
      if change.key = "model" then { gathered with model := some value }
      else { gathered with engine := some value }
    | _ =>
      { gathered with
        issues := gathered.issues ++ [⟨change.key, tr "selector value must be text"⟩] }
  else
    match serializeAssignment json tr change.key change.proposed with
    | .ok argument => { gathered with assignments := gathered.assignments ++ [argument] }
    | .error message => { gathered with issues := gathered.issues ++ [⟨change.key, message⟩] }

/-- The app whose settings are to change, unless its name is blank. -/
def settingsApp (backend : BackendIdentity) : Option String :=
  backend.modelctlApp.filter fun app => !isBlank app

def applyOperations (backend : BackendIdentity) (app : String) (gathered : Gathered) :
    List CommandRequest :=
  (if gathered.assignments.isEmpty then [] else [modelctlSetOperation app gathered.assignments]) ++
  (gathered.model.map fun model => modelctlOperation app "use-model" (some model)).toList ++
  (gathered.engine.map fun engine =>
    modelctlOperation app "use-engine" (if engine = "auto" then none else some engine)).toList ++
  [⟨"snap", ["restart", backend.snapName]⟩] ++
  if gathered.model.isSome || gathered.engine.isSome then [modelctlPruneOperation app] else []

def ApplyPreview.new (backend : BackendIdentity) (changes : List StagedChange) :
    Except PrepareApplyError ApplyPreview :=
  if changes.isEmpty then .error .noChanges
  else
    let changes := changes.insertionSort fun left right => left.key ≤ right.key
    let gathered := changes.foldl (Gathered.change json tr)
      { issues := validateBackendIdentity tr backend }
    match settingsApp backend with
    | none =>
      .error (.invalid (gathered.issues ++ changes.map fun change =>
        ⟨change.key, tr "the model's settings command could not be found"⟩))
    | some app =>
      if gathered.issues.isEmpty then .ok ⟨backend, changes, applyOperations backend app gathered⟩
      else .error (.invalid gathered.issues)

end

/-! ## What is gathered -/

section

variable {json : JsonText} {tr : String → String}

def proposedText (change : StagedChange) : Option String :=
  match change.proposed with
  | .text value => some value
  | _ => none

/-- The text of the last change to a selector. -/
def lastText (key : String) (changes : List StagedChange) : Option String :=
  (changes.filter fun change => change.key = key).getLast?.bind proposedText

/-- The changes to keys that are no selectors. -/
def plain (changes : List StagedChange) : List StagedChange :=
  changes.filter fun change => ¬ (change.key = "model" ∨ change.key = "engine")

/-- The assignment of a change that has one. -/
def argumentOf (json : JsonText) (tr : String → String) (change : StagedChange) : String :=
  match serializeAssignment json tr change.key change.proposed with
  | .ok argument => argument
  | .error _ => ""

/-- What has been gathered of changes that raised no issue. -/
structure Gathers (json : JsonText) (tr : String → String) (changes : List StagedChange)
    (gathered : Gathered) : Prop where
  model : gathered.model = lastText "model" changes
  engine : gathered.engine = lastText "engine" changes
  assignments : gathered.assignments = (plain changes).map (argumentOf json tr)
  serialized : ∀ change ∈ plain changes,
    serializeAssignment json tr change.key change.proposed = .ok (argumentOf json tr change)
  texts : ∀ change ∈ changes, change.key = "model" ∨ change.key = "engine" →
    ∃ value, change.proposed = .text value

theorem lastText_concat (key : String) (changes : List StagedChange) (change : StagedChange) :
    lastText key (changes ++ [change]) =
      if change.key = key then proposedText change else lastText key changes := by
  unfold lastText
  rw [List.filter_append]
  by_cases hkey : change.key = key
  · rw [if_pos hkey, List.filter_cons_of_pos (by simpa using hkey)]
    simp
  · rw [if_neg hkey, List.filter_cons_of_neg (by simpa using hkey)]
    simp

theorem plain_concat (changes : List StagedChange) (change : StagedChange) :
    plain (changes ++ [change]) =
      plain changes ++ if change.key = "model" ∨ change.key = "engine" then [] else [change] := by
  unfold plain
  rw [List.filter_append]
  congr 1
  split
  · rename_i h
    exact List.filter_cons_of_neg (by simpa [or_iff_not_imp_left] using h)
  · rename_i h
    exact List.filter_cons_of_pos (by simpa using h)

theorem Gathers.selector {changes : List StagedChange} {gathered : Gathered}
    {change : StagedChange} {value : String} (h : Gathers json tr changes gathered)
    (hkey : change.key = "model" ∨ change.key = "engine") (htext : change.proposed = .text value) :
    Gathers json tr (changes ++ [change]) (gathered.change json tr change) := by
  have hplain : plain (changes ++ [change]) = plain changes := by
    rw [plain_concat, if_pos hkey, List.append_nil]
  have hproposed : proposedText change = some value := by rw [proposedText, htext]
  have htexts : ∀ other ∈ changes ++ [change], other.key = "model" ∨ other.key = "engine" →
      ∃ value, other.proposed = .text value := by
    intro other hmem hother
    rcases List.mem_append.mp hmem with hmem | hmem
    · exact h.texts other hmem hother
    · rw [List.mem_singleton.mp hmem]
      exact ⟨value, htext⟩
  unfold Gathered.change
  rw [if_pos hkey, htext]
  dsimp only
  rcases hkey with hkey | hkey
  · have hne : ¬ change.key = "engine" := by
      rw [hkey]
      decide
    rw [if_pos hkey]
    refine ⟨?_, ?_, ?_, ?_, htexts⟩
    · rw [lastText_concat, if_pos hkey, hproposed]
    · rw [lastText_concat, if_neg hne]
      exact h.engine
    · rw [hplain]
      exact h.assignments
    · rw [hplain]
      exact h.serialized
  · have hne : ¬ change.key = "model" := by
      rw [hkey]
      decide
    rw [if_neg hne]
    refine ⟨?_, ?_, ?_, ?_, htexts⟩
    · rw [lastText_concat, if_neg hne]
      exact h.model
    · rw [lastText_concat, if_pos hkey, hproposed]
    · rw [hplain]
      exact h.assignments
    · rw [hplain]
      exact h.serialized

theorem Gathers.plainKey {changes : List StagedChange} {gathered : Gathered}
    {change : StagedChange} {argument : String} (h : Gathers json tr changes gathered)
    (hkey : ¬ (change.key = "model" ∨ change.key = "engine"))
    (hargument : serializeAssignment json tr change.key change.proposed = .ok argument) :
    Gathers json tr (changes ++ [change]) (gathered.change json tr change) := by
  have hplain : plain (changes ++ [change]) = plain changes ++ [change] := by
    rw [plain_concat, if_neg hkey]
  have hof : argumentOf json tr change = argument := by rw [argumentOf, hargument]
  unfold Gathered.change
  rw [if_neg hkey, hargument]
  obtain ⟨hmodel, hengine⟩ := not_or.mp hkey
  refine ⟨?_, ?_, ?_, ?_, ?_⟩
  · rw [lastText_concat, if_neg hmodel]
    exact h.model
  · rw [lastText_concat, if_neg hengine]
    exact h.engine
  · rw [hplain, List.map_append, ← h.assignments, List.map_singleton, hof]
  · rw [hplain]
    intro other hmem
    rcases List.mem_append.mp hmem with hmem | hmem
    · exact h.serialized other hmem
    · rw [List.mem_singleton.mp hmem, hof]
      exact hargument
  · intro other hmem hother
    rcases List.mem_append.mp hmem with hmem | hmem
    · exact h.texts other hmem hother
    · rw [List.mem_singleton.mp hmem] at hother
      exact absurd hother hkey

/-- A change that raises no issue is gathered. -/
theorem Gathers.change {changes : List StagedChange} {gathered : Gathered} {change : StagedChange}
    (h : Gathers json tr changes gathered)
    (hissues : (gathered.change json tr change).issues = []) :
    Gathers json tr (changes ++ [change]) (gathered.change json tr change) := by
  by_cases hkey : change.key = "model" ∨ change.key = "engine"
  · cases hproposed : change.proposed with
    | text value => exact h.selector hkey hproposed
    | _ => simp [Gathered.change, hkey, hproposed] at hissues
  · cases hargument : serializeAssignment json tr change.key change.proposed with
    | ok argument => exact h.plainKey hkey hargument
    | error message => simp [Gathered.change, hkey, hargument] at hissues

theorem Gathered.issues_of_change {gathered : Gathered} {change : StagedChange}
    (h : (gathered.change json tr change).issues = []) : gathered.issues = [] := by
  unfold Gathered.change at h
  split at h
  · split at h
    · split at h <;> exact h
    · simp at h
  · split at h
    · exact h
    · simp at h

theorem gathers_foldl (issues : List ValidationIssue) (changes : List StagedChange)
    (h : (changes.foldl (Gathered.change json tr) { issues }).issues = []) :
    Gathers json tr changes (changes.foldl (Gathered.change json tr) { issues }) := by
  induction changes using List.reverseRecOn with
  | nil => exact ⟨rfl, rfl, rfl, nofun, nofun⟩
  | append_singleton changes change ih =>
    rw [List.foldl_concat] at h ⊢
    exact (ih (Gathered.issues_of_change h)).change h

/-- A preview's operations, over what has been gathered of its changes. -/
theorem ApplyPreview.new_eq_ok {backend : BackendIdentity} {changes : List StagedChange}
    {preview : ApplyPreview} (h : ApplyPreview.new json tr backend changes = .ok preview) :
    changes ≠ [] ∧ ∃ app gathered, settingsApp backend = some app ∧
      Gathers json tr (changes.insertionSort fun left right => left.key ≤ right.key) gathered ∧
      preview.operations = applyOperations backend app gathered := by
  unfold ApplyPreview.new at h
  split at h
  · cases h
  · rename_i hne
    split at h
    · cases h
    · rename_i app happ
      dsimp only at h
      split at h
      · rename_i hissues
        obtain rfl := Except.ok.inj h
        exact ⟨by simpa using hne, app, _, happ,
          gathers_foldl _ _ (by simpa using hissues), rfl⟩
      · cases h

/-- Every change has left something behind. -/
theorem Gathers.nonempty {changes : List StagedChange} {gathered : Gathered}
    (h : Gathers json tr changes gathered) (hne : changes ≠ []) :
    gathered.assignments ≠ [] ∨ gathered.model.isSome = true ∨ gathered.engine.isSome = true := by
  obtain ⟨change, hmem⟩ := List.exists_mem_of_ne_nil _ hne
  have hlast : ∀ key, (key = "model" ∨ key = "engine") → change.key = key →
      (lastText key changes).isSome = true := by
    rintro key hsel rfl
    have hof : change ∈ changes.filter fun other => other.key = change.key := by simpa using hmem
    have hlast_mem := List.getLast_mem (List.ne_nil_of_mem hof)
    rw [List.mem_filter] at hlast_mem
    have hkey := of_decide_eq_true hlast_mem.2
    obtain ⟨value, hvalue⟩ := h.texts _ hlast_mem.1 (by rw [hkey]; exact hsel)
    rw [lastText, List.getLast?_eq_some_getLast (List.ne_nil_of_mem hof), Option.bind_some,
      proposedText, hvalue]
    rfl
  by_cases hmodel : change.key = "model"
  · rw [h.model]
    exact .inr (.inl (hlast _ (.inl rfl) hmodel))
  · by_cases hengine : change.key = "engine"
    · rw [h.engine]
      exact .inr (.inr (hlast _ (.inr rfl) hengine))
    · have hplain : change ∈ plain changes := by simp [plain, hmem, hmodel, hengine]
      rw [h.assignments]
      left
      simpa using List.ne_nil_of_mem hplain

end

/-! ## What the executor takes -/

section

variable {app : String}

theorem validateApply_set {assignments : List String} :
    validateApply (["run", app, "set"] ++ assignments ++ ["--assume-yes", "--no-restart"]) =
        .ok () ↔
      isModelctlApp app = true ∧ assignments ≠ [] ∧
        ∀ assignment ∈ assignments, validateAssignment assignment = .ok () := by
  have hsuffix : (assignments ++ ["--assume-yes", "--no-restart"]).stripSuffix MODELCTL_TAIL =
      some assignments := List.stripSuffix_eq_some.mpr rfl
  show validateApply ("run" :: app :: "set" :: (assignments ++ ["--assume-yes", "--no-restart"])) =
    .ok () ↔ _
  unfold validateApply
  by_cases happ : isModelctlApp app = true
  · simp only [hsuffix, happ, true_and]
    cases assignments with
    | nil => simp
    | cons assignment assignments => simp [checkAll_eq_ok]
  · simp [happ]

theorem validateApply_useModel {model : String} :
    validateApply ["run", app, "use-model", model, "--assume-yes", "--no-restart"] = .ok () ↔
      isModelctlApp app = true ∧ model.isEmpty = false ∧ isOption model = false := by
  simp only [validateApply]
  cases isModelctlApp app <;> cases model.isEmpty <;> cases isOption model <;>
    simp [ MODELCTL_TAIL]

theorem validateApply_useEngine {engine : String} :
    validateApply ["run", app, "use-engine", engine, "--assume-yes", "--no-restart"] = .ok () ↔
      isModelctlApp app = true ∧ engine.isEmpty = false ∧
        (isOption engine = true → engine = "--auto") := by
  simp only [validateApply]
  cases isModelctlApp app <;> cases engine.isEmpty <;> cases isOption engine <;>
    simp [ MODELCTL_TAIL]

theorem validateApply_restart {snap : String} :
    validateApply ["restart", snap] = .ok () ↔ isValidSnapName snap = true := by
  simp only [validateApply]
  cases isValidSnapName snap <;> simp

theorem validateApply_prune :
    validateApply ["run", app, "prune-cache"] = .ok () ↔ isModelctlApp app = true := by
  simp only [validateApply]
  cases isModelctlApp app <;> simp

/-- The key that the executor reads of an assignment: up to the first `=`. -/
def assignedKey (key : String) : String := String.ofList (key.toList.takeWhile (· ≠ '='))

theorem takeWhile_append_stop {α : Type} {p : α → Bool} (l : List α) {a : α} (rest : List α)
    (ha : p a = false) : (l ++ a :: rest).takeWhile p = l.takeWhile p := by
  induction l with
  | nil => simp [ha]
  | cons b l ih =>
    rw [List.cons_append, List.takeWhile_cons, List.takeWhile_cons, ih]

theorem validateAssignment_append (key value : String) :
    validateAssignment (key ++ "=" ++ value) = .ok () ↔ isConfigKey (assignedKey key) = true := by
  have hlist : (key ++ "=" ++ value).toList = key.toList ++ '=' :: value.toList := by simp
  unfold validateAssignment
  cases hsplit : List.splitOnce ['='] (key ++ "=" ++ value).toList with
  | none =>
    have := List.splitOnce_eq_none.mp hsplit
    simp at this
  | some parts =>
    obtain ⟨before, after⟩ := parts
    obtain ⟨hcut, hnot⟩ := List.splitOnce_singleton.mp hsplit
    have hbefore : before = key.toList.takeWhile (· ≠ '=') := by
      have hwhole : before.takeWhile (· ≠ '=') = before := by
        rw [List.takeWhile_eq_self_iff]
        intro c hc
        simpa using fun heq : c = '=' => hnot (heq ▸ hc)
      rw [← hwhole, ← takeWhile_append_stop before after (a := '=') (by decide), ← hcut, hlist,
        takeWhile_append_stop _ _ (by decide)]
    show (if isConfigKey (String.ofList before) = true then Except.ok ()
      else Except.error ("invalid configuration key " ++ String.ofList before)) = _ ↔ _
    rw [hbefore]
    show (if isConfigKey (assignedKey key) = true then Except.ok () else _) = _ ↔ _
    split <;> simp_all

end

/-! ## When the executor takes the plan -/

/-- What the executor asks of a list of changes, and the builder does not. -/
structure Executable (backend : BackendIdentity) (changes : List StagedChange) : Prop where
  snap : isValidSnapName backend.snapName = true
  app : ∀ app, backend.modelctlApp = some app → isModelctlApp app = true
  keys : ∀ change ∈ changes, change.key ≠ "model" → change.key ≠ "engine" →
    isConfigKey (assignedKey change.key) = true
  model : ∀ model, lastText "model" changes = some model →
    model.isEmpty = false ∧ isOption model = false
  engine : ∀ engine, lastText "engine" changes = some engine →
    engine.isEmpty = false ∧ (isOption engine = true → engine = "--auto")

section

variable {json : JsonText} {tr : String → String}

theorem argumentOf_eq {change : StagedChange}
    (h : serializeAssignment json tr change.key change.proposed =
      .ok (argumentOf json tr change)) :
    ∃ serialized, argumentOf json tr change = change.key ++ "=" ++ serialized := by
  unfold serializeAssignment at h
  split at h
  · rename_i serialized _
    exact ⟨serialized, (Except.ok.inj h).symm⟩
  · cases h

/-- The keys of the assignments are those of the changes that have one. -/
theorem Gathers.validateAssignments {changes : List StagedChange} {gathered : Gathered}
    (h : Gathers json tr changes gathered) :
    (∀ assignment ∈ gathered.assignments, validateAssignment assignment = .ok ()) ↔
      ∀ change ∈ changes, change.key ≠ "model" → change.key ≠ "engine" →
        isConfigKey (assignedKey change.key) = true := by
  have hof : ∀ change ∈ plain changes,
      (validateAssignment (argumentOf json tr change) = .ok () ↔
        isConfigKey (assignedKey change.key) = true) := by
    intro change hmem
    obtain ⟨serialized, heq⟩ := argumentOf_eq (h.serialized change hmem)
    rw [heq, validateAssignment_append]
  rw [h.assignments, List.forall_mem_map]
  constructor
  · intro hall change hmem hmodel hengine
    have hplain : change ∈ plain changes := by simp [plain, hmem, hmodel, hengine]
    exact (hof change hplain).mp (hall change hplain)
  · intro hall change hmem
    have hkeys : change ∈ changes ∧ change.key ≠ "model" ∧ change.key ≠ "engine" := by
      simpa [plain] using hmem
    exact (hof change hmem).mpr (hall change hkeys.1 hkeys.2.1 hkeys.2.2)

theorem lastText_insertionSort (key : String) (changes : List StagedChange) :
    lastText key (changes.insertionSort fun left right => left.key ≤ right.key) =
      lastText key changes := by
  unfold lastText
  rw [List.filter_insertionSort StagedChange.key key changes]

theorem forall_applyOperations {P : CommandRequest → Prop} {backend : BackendIdentity}
    {app : String} {gathered : Gathered} :
    (∀ operation ∈ applyOperations backend app gathered, P operation) ↔
      (gathered.assignments ≠ [] → P (modelctlSetOperation app gathered.assignments)) ∧
      (∀ model, gathered.model = some model →
        P (modelctlOperation app "use-model" (some model))) ∧
      (∀ engine, gathered.engine = some engine →
        P (modelctlOperation app "use-engine" (if engine = "auto" then none else some engine))) ∧
      P ⟨"snap", ["restart", backend.snapName]⟩ ∧
      (gathered.model.isSome = true ∨ gathered.engine.isSome = true →
        P (modelctlPruneOperation app)) := by
  obtain ⟨issues, assignments, model, engine⟩ := gathered
  unfold applyOperations
  cases assignments <;> cases model <;> cases engine <;> simp

theorem validatePlan_applyOperations {backend : BackendIdentity} {app : String}
    {gathered : Gathered} :
    validatePlan .apply
        ((applyOperations backend app gathered).map CommandRequest.operation) = .ok () ↔
      ∀ operation ∈ applyOperations backend app gathered,
        validateOperation .apply operation.operation = .ok () := by
  have hne : ((applyOperations backend app gathered).map CommandRequest.operation).isEmpty =
      false := by simp [applyOperations]
  unfold validatePlan
  rw [hne, if_neg Bool.false_ne_true, checkAll_eq_ok, List.forall_mem_map]

theorem validateApply_engineOperation {app engine : String} :
    validateOperation .apply (CommandRequest.operation
        (modelctlOperation app "use-engine" (if engine = "auto" then none else some engine))) =
        .ok () ↔
      isModelctlApp app = true ∧ engine.isEmpty = false ∧
        (isOption engine = true → engine = "--auto") := by
  by_cases hauto : engine = "auto"
  · subst hauto
    show validateApply ["run", app, "use-engine", "--auto", "--assume-yes", "--no-restart"] = _ ↔ _
    rw [validateApply_useEngine]
    refine and_congr_right fun _ => ?_
    exact iff_of_true ⟨by decide, fun _ => rfl⟩ ⟨by decide, fun h => absurd h (by decide)⟩
  · rw [if_neg hauto]
    exact validateApply_useEngine

/-- **What the unprivileged side plans, the privileged side takes**, where every name and key is
one. -/
theorem validatePlan_preview_iff {backend : BackendIdentity} {changes : List StagedChange}
    {preview : ApplyPreview} (h : ApplyPreview.new json tr backend changes = .ok preview) :
    validatePlan .apply (preview.operations.map CommandRequest.operation) = .ok () ↔
      Executable backend changes := by
  obtain ⟨hne, app, gathered, happ, hgathers, hoperations⟩ := ApplyPreview.new_eq_ok h
  have happ' : backend.modelctlApp = some app := (Option.filter_eq_some_iff.mp happ).1
  have hsorted : changes.insertionSort (fun left right => left.key ≤ right.key) ≠ [] := by
    rw [Ne, ← List.length_eq_zero_iff, List.length_insertionSort, List.length_eq_zero_iff]
    exact hne
  have hsome := hgathers.nonempty hsorted
  have hmodel := hgathers.model
  have hengine := hgathers.engine
  rw [lastText_insertionSort] at hmodel hengine
  have hkeys := hgathers.validateAssignments
  simp only [List.mem_insertionSort] at hkeys
  rw [hoperations, validatePlan_applyOperations, forall_applyOperations]
  constructor
  · rintro ⟨hset, huse, hchoose, hrestart, -⟩
    have hset := fun hassignments => validateApply_set.mp (hset hassignments)
    have huse := fun model heq => validateApply_useModel.mp (huse model heq)
    have hchoose := fun engine heq => validateApply_engineOperation.mp (hchoose engine heq)
    refine ⟨validateApply_restart.mp hrestart, ?_, ?_, ?_, ?_⟩
    · intro other hother
      obtain rfl := Option.some.inj (happ'.symm.trans hother)
      -- whatever has been gathered names the app
      rcases hsome with hassignments | hsome | hsome
      · exact (hset hassignments).1
      · obtain ⟨model, heq⟩ := Option.isSome_iff_exists.mp hsome
        exact (huse model heq).1
      · obtain ⟨engine, heq⟩ := Option.isSome_iff_exists.mp hsome
        exact (hchoose engine heq).1
    · refine hkeys.mp fun assignment hmem => ?_
      exact (hset (List.ne_nil_of_mem hmem)).2.2 assignment hmem
    · exact fun model heq => (huse model (hmodel.trans heq)).2
    · exact fun engine heq => (hchoose engine (hengine.trans heq)).2
  · intro hexec
    have hvalid := hexec.app app happ'
    refine ⟨?_, ?_, ?_, validateApply_restart.mpr hexec.snap, ?_⟩
    · exact fun hassignments => validateApply_set.mpr ⟨hvalid, hassignments, hkeys.mpr hexec.keys⟩
    · intro model heq
      exact validateApply_useModel.mpr ⟨hvalid, hexec.model model (hmodel.symm.trans heq)⟩
    · intro engine heq
      exact validateApply_engineOperation.mpr
        ⟨hvalid, hexec.engine engine (hengine.symm.trans heq)⟩
    · exact fun _ => validateApply_prune.mpr hvalid

end

/-! ## A key with a space -/

/-- Decimals as they are, and texts between quotes. -/
def plainJson : JsonText := ⟨fun x => toString x.num, fun s => "\"" ++ s ++ "\""⟩

def parakeetBackend : BackendIdentity :=
  (BackendIdentity.new "myna-parakeet" "provider").withModelctlApp "myna-parakeet.modelctl"

/-- One change of a key from 4 to 5. -/
def oneChange (key : String) (h : isBlank key = false) : List StagedChange :=
  [⟨key, .integer 5, h⟩]

/-- The preview of a change of one plain key to 5. -/
def keyPreview (key : String) (h : isBlank key = false) : ApplyPreview :=
  ⟨parakeetBackend, oneChange key h,
    [modelctlSetOperation "myna-parakeet.modelctl" [key ++ "=5"],
      ⟨"snap", ["restart", "myna-parakeet"]⟩]⟩

theorem beamSize_taken :
    validatePlan .apply
      ((keyPreview "beam-size" (by decide +kernel)).operations.map CommandRequest.operation) =
        .ok () := by
  have hpreview : ApplyPreview.new plainJson id parakeetBackend
      (oneChange "beam-size" (by decide +kernel)) =
    .ok (keyPreview "beam-size" (by decide +kernel)) := rfl
  exact (validatePlan_preview_iff hpreview).mpr
    ⟨by decide +kernel, by decide +kernel, by decide +kernel, by decide +kernel,
      by decide +kernel⟩

/-- `modelctl get` prints such a key, and the preview has nothing against it. -/
theorem beamSize_refused :
    StagedChange.new "beam size" (.integer 4) (.integer 5) =
        .ok ⟨"beam size", .integer 5, by decide +kernel⟩ ∧
      ApplyPreview.new plainJson id parakeetBackend (oneChange "beam size" (by decide +kernel)) =
        .ok (keyPreview "beam size" (by decide +kernel)) ∧
      validatePlan .apply
        ((keyPreview "beam size" (by decide +kernel)).operations.map CommandRequest.operation) =
          .error "invalid configuration key beam size" :=
  ⟨rfl, rfl, by decide +kernel⟩

end Config

end Myna
