import Myna.Config.PlanShapes

/-!
# Myna — what a privileged plan runs

The document the executor reads holds the plan that was encoded, and of an accepted plan it runs the
operations in order, up to the first that fails.

* **`decodePlan_planJson`** — the round trip;
* **`runOperation_spec`**, **`runOperations_spec`** — one operation, and the loop;
* **`plan_sound`** — the validator and the executor together.
-/

namespace Myna

namespace Config

/-! ## The document -/

theorem readOperation_toJson (op : PlanOperation) : readOperation op.toJson = some op := by
  have hargs : readArguments (.arr (op.arguments.map Json.str)) = some op.arguments := by
    have hstr : ∀ s, Json.asStr (Json.str s) = some (id s) := fun _ => rfl
    simpa [readArguments] using Json.readAll_map hstr op.arguments
  have hexe : onlyEntry [("executable", .str op.executable),
      ("arguments", .arr (op.arguments.map Json.str))] "executable"
      = some (.str op.executable) := by simp [onlyEntry]
  have harg : onlyEntry [("executable", .str op.executable),
      ("arguments", .arr (op.arguments.map Json.str))] "arguments"
      = some (.arr (op.arguments.map Json.str)) := by simp [onlyEntry]
  show (do
    let executable ← (onlyEntry _ "executable").bind Json.asStr
    let arguments ← (onlyEntry _ "arguments").bind readArguments
    some (PlanOperation.mk executable arguments)) = some op
  rw [hexe, harg, Option.bind_some, Option.bind_some, hargs]
  rfl

theorem decodePlan_planJson (plan : List PlanOperation) :
    decodePlan (planJson plan) = some plan := by
  have := Json.readAll_map (f := id) readOperation_toJson plan
  simpa [decodePlan, planJson] using this

/-! ## Accepted plans -/

theorem validatePlan_iff {kind : PlanKind} {plan : List PlanOperation} :
    validatePlan kind plan = .ok () ↔
      plan ≠ [] ∧ ∀ op ∈ plan, ∃ c : Command, c.kind = kind ∧ c.operation = op := by
  unfold validatePlan
  cases plan with
  | nil => simp
  | cons op plan =>
    rw [List.isEmpty_cons, if_neg Bool.false_ne_true, checkAll_eq_ok]
    simp only [validateOperation_iff, ne_eq, List.cons_ne_nil, not_false_eq_true, true_and]

/-- The two kinds of plan have no operation in common. -/
theorem disjoint_kinds {applied setUp : List PlanOperation}
    (ha : validatePlan .apply applied = .ok ()) (hs : validatePlan .setUp setUp = .ok ()) :
    applied.Disjoint setUp := by
  intro op hop hop'
  obtain ⟨c, hc, rfl⟩ := (validatePlan_iff.mp ha).2 op hop
  obtain ⟨d, hd, hsame⟩ := (validatePlan_iff.mp hs).2 _ hop'
  have hkind := kind_eq_of_arguments (PlanOperation.mk.inj hsame).2
  rw [hc, hd] at hkind
  cases hkind

theorem encodePlan_iff {kind : PlanKind} {requests : List CommandRequest} {document : Json} :
    encodePlan kind requests = .ok document ↔
      validatePlan kind (requests.map CommandRequest.operation) = .ok () ∧
        document = planJson (requests.map CommandRequest.operation) := by
  unfold encodePlan
  dsimp only
  cases validatePlan kind (requests.map CommandRequest.operation) with
  | ok u => simp [eq_comm]
  | error e => simp

/-! ## Running -/

/-- An install that the store answered with an error that may not recur. -/
def Retried (op : PlanOperation) (result : PlanResult) : Prop :=
  (∃ snap, op.arguments = ["install", "--edge", snap]) ∧
    ∃ error, storeError result = some error ∧ error.transient = true

/-- The processes run for an operation, and the result that counts. -/
inductive Attempts (op : PlanOperation) : List PlanResult → PlanResult → Prop
  | once (result : PlanResult) (hop : result.operation = op) (hnot : ¬ Retried op result) :
      Attempts op [result] result
  | again (first result : PlanResult) (hop : first.operation = op) (hop' : result.operation = op)
      (hretried : Retried op first) : Attempts op [first, result] result

theorem Attempts.operation_eq {op : PlanOperation} {ran : List PlanResult} {result : PlanResult}
    (h : Attempts op ran result) : result.operation = op := by
  cases h with
  | once _ hop _ => exact hop
  | again _ _ _ hop' _ => exact hop'

@[simp] theorem resultOf_operation (op : PlanOperation) (outcome : Outcome) :
    (resultOf op outcome).operation = op := by
  cases outcome <;> rfl

section

variable (outcome : ℕ → Outcome)

theorem runOperation_spec (ex : Executor) (op : PlanOperation) :
    ∃ ran, Attempts op ran (runOperation outcome ex op).1 ∧
      (runOperation outcome ex op).2.ran = ex.ran ++ ran := by
  have hfirst : (resultOf op (outcome ex.ran.length)).operation = op := resultOf_operation _ _
  unfold runOperation
  dsimp only [execute]
  split
  case h_1 snap hargs =>
    split
    case h_1 hnone =>
      refine ⟨_, .once _ hfirst ?_, rfl⟩
      rintro ⟨-, error, herror, htransient⟩
      rw [herror, Option.filter_some, if_pos htransient] at hnone
      cases hnone
    case h_2 error herror =>
      -- the second process is the one that counts, whatever it answers
      have hretried : Retried op (resultOf op (outcome ex.ran.length)) := by
        obtain ⟨hstore, htransient⟩ := Option.filter_eq_some_iff.mp herror
        exact ⟨⟨snap, hargs⟩, error, hstore, htransient⟩
      have happ : ∀ r r' : PlanResult, ex.ran ++ [r] ++ [r'] = ex.ran ++ [r, r'] := by simp
      split
      · exact ⟨_, .again _ _ hfirst (resultOf_operation _ _) hretried, happ _ _⟩
      · exact ⟨_, .again _ _ hfirst (resultOf_operation _ _) hretried, happ _ _⟩
  case h_2 hargs =>
    refine ⟨_, .once _ hfirst ?_, rfl⟩
    rintro ⟨⟨snap, hsnap⟩, -⟩
    exact hargs snap hsnap

/-- The results of a plan run in order, up to the first operation that fails. -/
structure StopsAtFailure (plan : List PlanOperation) (results : List PlanResult)
    (exit : PlanExit) : Prop where
  inOrder : results.map PlanResult.operation <+: plan
  goesOn : ∀ result ∈ results.dropLast, result.exitStatus = some 0
  success : exit = .success ↔
    results.map PlanResult.operation = plan ∧ ∀ result ∈ results, result.exitStatus = some 0
  failure : exit ≠ .success →
    exit = .operationFailed ∧ ∃ result ∈ results.getLast?, result.exitStatus ≠ some 0

/-- The processes run for these results. -/
def RunFor (results ran : List PlanResult) : Prop :=
  ∃ attempts : List (List PlanResult),
    List.Forall₂ (fun result ran => Attempts result.operation ran result) results attempts ∧
      ran = attempts.flatten

theorem StopsAtFailure.nil : StopsAtFailure [] [] .success where
  inOrder := List.prefix_rfl
  goesOn := by simp
  success := by simp
  failure h := absurd rfl h

theorem StopsAtFailure.fails {result : PlanResult} (plan : List PlanOperation)
    (h : result.exitStatus ≠ some 0) :
    StopsAtFailure (result.operation :: plan) [result] .operationFailed where
  inOrder := ⟨plan, rfl⟩
  goesOn := by simp
  success := by simp [h]
  failure _ := ⟨rfl, result, rfl, h⟩

theorem StopsAtFailure.cons {plan : List PlanOperation} {results : List PlanResult}
    {exit : PlanExit} {result : PlanResult} (h : result.exitStatus = some 0)
    (hrest : StopsAtFailure plan results exit) :
    StopsAtFailure (result.operation :: plan) (result :: results) exit where
  inOrder := List.prefix_cons_inj _ |>.mpr hrest.inOrder
  goesOn := by
    intro r hr
    cases results with
    | nil => cases hr
    | cons r' results =>
      rcases List.mem_cons.mp hr with rfl | hr
      · exact h
      · exact hrest.goesOn r hr
  success := by
    rw [hrest.success]
    simp [h]
  failure hexit := by
    obtain ⟨hfailed, last, hlast, hstatus⟩ := hrest.failure hexit
    refine ⟨hfailed, last, ?_, hstatus⟩
    rw [List.getLast?_cons, hlast]
    rfl

theorem runOperations_spec (plan : List PlanOperation) : ∀ ex : Executor,
    ∃ results exit ex', runOperations outcome ex plan = (results, exit, ex') ∧
      StopsAtFailure plan results exit ∧ ∃ ran, RunFor results ran ∧ ex'.ran = ex.ran ++ ran := by
  induction plan with
  | nil => exact fun ex => ⟨[], .success, ex, rfl, .nil, [], ⟨[], .nil, rfl⟩, by simp⟩
  | cons op plan ih =>
    intro ex
    obtain ⟨ran, hattempts, hran⟩ := runOperation_spec outcome ex op
    rw [runOperations]
    generalize runOperation outcome ex op = step at hattempts hran
    obtain ⟨result, ex'⟩ := step
    have hop := hattempts.operation_eq
    subst hop
    by_cases hok : result.exitStatus = some 0
    · obtain ⟨results, exit, ex'', hrun, hstops, rest, ⟨attempts, hfor, rfl⟩, hrest⟩ := ih ex'
      refine ⟨result :: results, exit, ex'', ?_, hstops.cons hok, ran ++ attempts.flatten,
        ⟨ran :: attempts, .cons hattempts hfor, rfl⟩, ?_⟩
      · simp only [hok, ne_eq, not_true_eq_false, if_false, hrun]
      · rw [hrest, hran, List.append_assoc]
    · refine ⟨[result], .operationFailed, ex', ?_, .fails plan hok, ran,
        ⟨[ran], .cons hattempts .nil, by simp⟩, hran⟩
      simp only [hok, ne_eq, not_false_eq_true, if_true]

end

/-- **A privileged plan runs nothing but commands of its kind, in order, up to the first
failure.** -/
theorem plan_sound (kind : PlanKind) :
    (∀ plan, validatePlan kind plan = .ok () ↔
      plan ≠ [] ∧ ∀ op ∈ plan, ∃ c : Command, c.kind = kind ∧ c.operation = op) ∧
    (∀ c : Command, c.arguments.filter isOption = c.options) ∧
    (∀ applied setUp, validatePlan .apply applied = .ok () → validatePlan .setUp setUp = .ok () →
      applied.Disjoint setUp) ∧
    (∀ plan, decodePlan (planJson plan) = some plan) ∧
    (∀ requests document, encodePlan kind requests = .ok document ↔
      validatePlan kind (requests.map CommandRequest.operation) = .ok () ∧
        document = planJson (requests.map CommandRequest.operation)) ∧
    ∀ outcome serdeError document,
      let run := runPlan outcome serdeError kind document
      match decodePlan document with
      | none => run.printed = none ∧ run.exit = .invalidPlan ∧ run.executor.ran = []
      | some plan =>
        if validatePlan kind plan = .ok () then
          ∃ results, run.printed = some results ∧ StopsAtFailure plan results run.exit ∧
            RunFor results run.executor.ran
        else run.printed = none ∧ run.exit = .invalidPlan ∧ run.executor.ran = [] := by
  refine ⟨fun plan => validatePlan_iff, options_arguments, fun applied setUp => disjoint_kinds,
    decodePlan_planJson, fun requests document => encodePlan_iff, ?_⟩
  intro outcome serdeError document
  dsimp only [runPlan]
  cases decodePlan document with
  | none => exact ⟨rfl, rfl, rfl⟩
  | some plan =>
    dsimp only
    cases validatePlan kind plan with
    | error message => exact ⟨rfl, rfl, rfl⟩
    | ok u =>
      obtain ⟨results, exit, ex, hrun, hstops, ran, hfor, hran⟩ :=
        runOperations_spec outcome plan {}
      rw [if_pos rfl, hrun]
      refine ⟨results, rfl, hstops, ?_⟩
      show RunFor results ex.ran
      rw [hran]
      exact hfor

def installMyna : PlanOperation := ⟨ALLOWED_EXECUTABLE, ["install", "--edge", MYNA_SNAP]⟩

/-- The store fails the first install, and serves the second. -/
def storeRecovers : ℕ → Outcome
  | 0 => .output (some 1) "" "got unexpected HTTP status code 408 via POST to \"https://api\""
  | _ => .output (some 0) "" ""

/-- An engine that is an option is accepted, and a process that failed is run again. -/
theorem auto_engine_and_retry :
    (validatePlan .apply
        [⟨"snap", ["run", "myna-whisper", "use-engine", "--auto", "--assume-yes", "--no-restart"]⟩]
      = .ok () ∧ isOption "--auto" = true) ∧
    validatePlan .setUp [installMyna] = .ok () ∧
    (runPlan storeRecovers "" .setUp (planJson [installMyna])).executor.ran.map
      PlanResult.operation = [installMyna, installMyna] := by
  decide +kernel

end Config

end Myna
