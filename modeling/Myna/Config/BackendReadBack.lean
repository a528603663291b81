import Myna.Config.Presentation
import Myna.Lib.Retry

/-!
# Myna — what was applied is read back (`myna_config::backend_apply::execute_backend_apply`)

A plan runs with root's rights, and the backend restarts. The settings are then read until the
backend is up and can be read, thirty times at most, and what is read is compared with what was
asked for.

* **`executeBackendApply`** — the run and the reads, over a world that answers both;
* **`execute_eq_ok_iff`** — when it reports success.
-/

namespace Myna

namespace Config

/-! ## Outcomes -/

structure ReadBackMismatch where
  key : String
  requested : ConfigValue
  actual : Option ConfigValue
deriving DecidableEq

structure PrivilegedFailure where
  step : FailedStep
  message : String

inductive ApplyFailure
  | cancelledExecution
  | verificationCancelled (commands : List PlanResult) (snapshot : BackendSnapshot)
  | authorizationDenied (details : PrivilegedFailure)
  | valuesRejected (details : PrivilegedFailure)
  | execution (details : PrivilegedFailure)
  | partialExecution (snapshot : BackendSnapshot) (commands : List PlanResult)
      (failure : SystemConfiguratorError)
  | restartReadiness (snapshot : BackendSnapshot) (message : String)
  | readBackUnavailable (snapshot : BackendSnapshot) (errors : List BackendSurfaceError)
  | readBackMismatch (snapshot : BackendSnapshot) (mismatches : List ReadBackMismatch)

structure ApplySuccess where
  snapshot : BackendSnapshot

def mapSystemError : SystemConfiguratorError → ApplyFailure
  | .cancelled => .cancelledExecution
  | .authorizationDenied step message => .authorizationDenied ⟨step, message⟩
  | .valuesRejected step message => .valuesRejected ⟨step, message⟩
  | .execution step message => .execution ⟨step, message⟩

/-! ## What is read -/

section

variable (tr : String → String) (ptr : String → String → String)

def serviceStateLabel : ServiceState → String
  | .active => ptr "service state" "active"
  | .inactive => ptr "service state" "inactive"
  | .failed => ptr "service state" "failed"
  | .unknown _ => ptr "service state" "unknown"

def readinessFailure (snapshot : BackendSnapshot) : Option String :=
  let unconfirmed := tr "The model's restart could not be confirmed."
  match snapshot.error .status with
  | some error => some (unconfirmed ++ "\n" ++ error.message)
  | none =>
    match snapshot.status with
    | none => some unconfirmed
    | some status =>
      if status.services.isEmpty then some (unconfirmed ++ "\nno service health was reported")
      else
        let failing := (status.services.filter fun service => service.state ≠ .active).map
          fun service => service.name ++ " (" ++ serviceStateLabel ptr service.state ++ ")"
        if failing.isEmpty then none
        else some (tr "The model did not restart." ++ "\n" ++ ", ".intercalate failing)

def readinessFailureIsTerminal (snapshot : BackendSnapshot) : Bool :=
  snapshot.status.any fun status => status.services.any fun service => service.state = .failed

/-- The surface that a setting is read from. -/
def surfaceOf (key : String) : BackendSurface :=
  if key = "model" then .models else if key = "engine" then .engines else .modelctlConfig

def readBackErrors (preview : ApplyPreview) (snapshot : BackendSnapshot) :
    List BackendSurfaceError :=
  let surfaces := preview.changes.foldl (fun surfaces change =>
    if surfaceOf change.key ∈ surfaces then surfaces else surfaces ++ [surfaceOf change.key]) []
  surfaces.filterMap snapshot.error

/-- For the engine `auto`: a compatible engine runs, whichever it is. -/
def autoEngineResolved (change : StagedChange) (snapshot : BackendSnapshot) : Bool :=
  change.key = "engine" && change.proposed = .text "auto" &&
    snapshot.engines.any fun engines => engines.active.any fun active =>
      engines.options.any fun engine => engine.name = active && engine.compatible

def confirmed (change : StagedChange) (snapshot : BackendSnapshot) : Bool :=
  ((snapshot.value change.key).any fun actual => actual.eq change.proposed) ||
    autoEngineResolved change snapshot

def readBackMismatches (preview : ApplyPreview) (snapshot : BackendSnapshot) :
    List ReadBackMismatch :=
  preview.changes.filterMap fun change =>
    if confirmed change snapshot then none
    else some ⟨change.key, change.proposed, snapshot.value change.key⟩

/-! ## The run and the reads -/

def READINESS_ATTEMPTS : ℕ := 30

/-- What the configurator and the repository answer, in a world of states `σ`. -/
structure ApplyPorts (σ : Type) where
  applyBackendConfig : ApplyPreview → σ → Except SystemConfiguratorFailure (List PlanResult) × σ
  readSnapshot : BackendIdentity → σ → BackendSnapshot × σ
  /-- `READINESS_RETRY_DELAY` passes. -/
  pause : σ → σ
  /-- The user's token, as it stands. -/
  isCancelled : σ → Bool
  /-- The token of the reads that verify. -/
  verificationCancelled : σ → Bool

variable {σ : Type} (ports : ApplyPorts σ) (preview : ApplyPreview)

/-- What one read of the backend settles. -/
def verifyOnce (commands : List PlanResult) (w : σ) :
    Retry.Turn ApplyFailure BackendSnapshot × σ :=
  let (snapshot, w) := ports.readSnapshot preview.backend w
  if ports.verificationCancelled w then (.failed (.verificationCancelled commands snapshot), w)
  else if ports.isCancelled w then (.failed (.partialExecution snapshot commands .cancelled), w)
  else
    match readinessFailure tr ptr snapshot with
    | some message =>
      if readinessFailureIsTerminal snapshot then (.failed (.restartReadiness snapshot message), w)
      else (.again (.restartReadiness snapshot message), w)
    | none =>
      match readBackErrors preview snapshot with
      | [] => (.done snapshot, w)
      | errors => (.again (.readBackUnavailable snapshot errors), w)

/-- `invalid_results`. -/
def invalidResults (commands : List PlanResult) (operations : List CommandRequest) : Bool :=
  commands.length ≠ operations.length ||
    (commands.zip operations).any fun (result, request) =>
      result.executable ≠ request.executable || result.arguments ≠ request.arguments ||
        result.exitStatus ≠ some 0

def partialExecution (commands : List PlanResult) (error : SystemConfiguratorError) (w : σ) :
    Except ApplyFailure ApplySuccess × σ :=
  if commands.isEmpty then (.error (mapSystemError error), w)
  else
    let (snapshot, w) := ports.readSnapshot preview.backend w
    (.error (.partialExecution snapshot commands error), w)

/-- What the read that settled says of the changes. -/
def reported : Except ApplyFailure BackendSnapshot → Except ApplyFailure ApplySuccess
  | .error failure => .error failure
  | .ok snapshot =>
    match readBackMismatches preview snapshot with
    | [] => .ok ⟨snapshot⟩
    | mismatches => .error (.readBackMismatch snapshot mismatches)

def executeBackendApply (w : σ) : Except ApplyFailure ApplySuccess × σ :=
  match ports.applyBackendConfig preview w with
  | (.error failure, w) => partialExecution ports preview failure.completed failure.error w
  | (.ok commands, w) =>
    if invalidResults commands preview.operations then
      partialExecution ports preview commands
        (.execution (.command "pkexec" [] none "")
          "the privileged apply plan did not execute every operation") w
    else if ports.isCancelled w then
      let (snapshot, w) := ports.readSnapshot preview.backend w
      (.error (.partialExecution snapshot commands .cancelled), w)
    else
      let (verdict, w) := Retry.run (verifyOnce tr ptr ports preview commands) ports.pause
        (READINESS_ATTEMPTS - 1) w
      (reported preview verdict, w)

end

/-! ## When success is reported -/

/-- Every operation ran, in order, and exited with 0. -/
def Ran (commands : List PlanResult) (operations : List CommandRequest) : Prop :=
  List.Forall₂ (fun result request => result.executable = request.executable ∧
    result.arguments = request.arguments ∧ result.exitStatus = some 0) commands operations

theorem invalidResults_eq_false {commands : List PlanResult} {operations : List CommandRequest} :
    invalidResults commands operations = false ↔ Ran commands operations := by
  unfold Ran
  induction commands generalizing operations with
  | nil => cases operations <;> simp [invalidResults]
  | cons result commands ih =>
    cases operations with
    | nil => simp [invalidResults]
    | cons request operations =>
      rw [List.forall₂_cons, ← ih]
      simp only [invalidResults, List.length_cons, List.zip_cons_cons, List.any_cons]
      by_cases hlength : commands.length = operations.length <;>
        simp [hlength, and_assoc]

section

variable {tr : String → String} {ptr : String → String → String}

theorem readBackMismatches_eq_nil {preview : ApplyPreview} {snapshot : BackendSnapshot} :
    readBackMismatches preview snapshot = [] ↔
      ∀ change ∈ preview.changes, confirmed change snapshot = true := by
  unfold readBackMismatches
  rw [List.filterMap_eq_nil_iff]
  refine forall₂_congr fun change _ => ?_
  split <;> simp_all

variable {σ : Type} {ports : ApplyPorts σ} {preview : ApplyPreview}

/-- The `n`-th read after the plan ran in `w`, and the world it leaves. -/
def readAt (ports : ApplyPorts σ) (preview : ApplyPreview) (w : σ) (n : ℕ) :
    BackendSnapshot × σ :=
  ports.readSnapshot preview.backend
    ((fun w => ports.pause (ports.readSnapshot preview.backend w).2)^[n] w)

def Uncancelled (ports : ApplyPorts σ) (w : σ) : Prop :=
  ports.verificationCancelled w = false ∧ ports.isCancelled w = false

/-- The backend is up, and what was changed can be read. -/
def Ready (tr : String → String) (ptr : String → String → String) (preview : ApplyPreview)
    (snapshot : BackendSnapshot) : Prop :=
  readinessFailure tr ptr snapshot = none ∧ readBackErrors preview snapshot = []

/-- The backend may still come up, or what was changed cannot be read yet. -/
def Pending (tr : String → String) (ptr : String → String → String) (preview : ApplyPreview)
    (snapshot : BackendSnapshot) : Prop :=
  ((readinessFailure tr ptr snapshot).isSome = true ∧
      readinessFailureIsTerminal snapshot = false) ∨
    (readinessFailure tr ptr snapshot = none ∧ readBackErrors preview snapshot ≠ [])

/-- The `n`-th read is the first that settles anything, and it is `snapshot`. -/
structure SettlesAt (tr : String → String) (ptr : String → String → String) (ports : ApplyPorts σ)
    (preview : ApplyPreview) (w : σ) (n : ℕ) (snapshot : BackendSnapshot) : Prop where
  pending : ∀ m < n, Uncancelled ports (readAt ports preview w m).2 ∧
    Pending tr ptr preview (readAt ports preview w m).1
  uncancelled : Uncancelled ports (readAt ports preview w n).2
  ready : Ready tr ptr preview snapshot
  read : (readAt ports preview w n).1 = snapshot

variable {commands : List PlanResult} {w : σ} {snapshot : BackendSnapshot}

theorem verifyOnce_snd : (verifyOnce tr ptr ports preview commands w).2 =
    (ports.readSnapshot preview.backend w).2 := by
  unfold verifyOnce
  dsimp only
  split
  · rfl
  · split
    · rfl
    · split
      · split <;> rfl
      · split <;> rfl

theorem verifyOnce_done_iff :
    (verifyOnce tr ptr ports preview commands w).1 = .done snapshot ↔
      (ports.readSnapshot preview.backend w).1 = snapshot ∧
        Uncancelled ports (ports.readSnapshot preview.backend w).2 ∧
        Ready tr ptr preview snapshot := by
  unfold verifyOnce Uncancelled Ready
  obtain ⟨read, after⟩ := ports.readSnapshot preview.backend w
  dsimp only
  cases hverify : ports.verificationCancelled after
  · cases hcancel : ports.isCancelled after
    · cases hfailure : readinessFailure tr ptr read with
      | some message =>
        have hnot : ¬ (read = snapshot ∧ (True ∧ True) ∧
            readinessFailure tr ptr snapshot = none ∧ readBackErrors preview snapshot = []) := by
          rintro ⟨rfl, -, hnone, -⟩
          cases hfailure.symm.trans hnone
        cases readinessFailureIsTerminal read <;> simpa using hnot
      | none =>
        cases herrors : readBackErrors preview read with
        | nil =>
          constructor
          · intro h
            obtain rfl := Retry.Turn.done.inj h
            exact ⟨rfl, ⟨rfl, rfl⟩, hfailure, herrors⟩
          · rintro ⟨rfl, -, -⟩
            rfl
        | cons error errors =>
          constructor
          · intro h
            cases h
          · rintro ⟨rfl, -, -, hnil⟩
            cases herrors.symm.trans hnil
    · simp
  · simp

theorem verifyOnce_again_iff :
    (∃ failure, (verifyOnce tr ptr ports preview commands w).1 = .again failure) ↔
      Uncancelled ports (ports.readSnapshot preview.backend w).2 ∧
        Pending tr ptr preview (ports.readSnapshot preview.backend w).1 := by
  unfold verifyOnce Uncancelled Pending
  obtain ⟨read, after⟩ := ports.readSnapshot preview.backend w
  dsimp only
  cases hverify : ports.verificationCancelled after
  · cases hcancel : ports.isCancelled after
    · cases hfailure : readinessFailure tr ptr read with
      | some message => cases hterminal : readinessFailureIsTerminal read <;> simp
      | none => cases herrors : readBackErrors preview read <;> simp
    · simp
  · simp

theorem readAt_eq (n : ℕ) : readAt ports preview w n =
    ports.readSnapshot preview.backend
      (Retry.start (verifyOnce tr ptr ports preview commands) ports.pause n w) := by
  unfold readAt Retry.start
  simp only [verifyOnce_snd]

theorem reported_eq_ok_iff {verdict : Except ApplyFailure BackendSnapshot} :
    reported preview verdict = .ok ⟨snapshot⟩ ↔
      verdict = .ok snapshot ∧ readBackMismatches preview snapshot = [] := by
  cases verdict with
  | error failure => simp [reported]
  | ok read =>
    unfold reported
    dsimp only
    cases hmismatches : readBackMismatches preview read with
    | nil =>
      constructor
      · intro h
        obtain rfl : read = snapshot := congrArg ApplySuccess.snapshot (Except.ok.inj h)
        exact ⟨rfl, hmismatches⟩
      · rintro ⟨hok, -⟩
        rw [Except.ok.inj hok]
    | cons mismatch mismatches =>
      constructor
      · intro h
        cases h
      · rintro ⟨hok, hnil⟩
        rw [← Except.ok.inj hok, hmismatches] at hnil
        cases hnil

/-- What the reads come to. -/
theorem verified_eq_ok_iff :
    (Retry.run (verifyOnce tr ptr ports preview commands) ports.pause
        (READINESS_ATTEMPTS - 1) w).1 = .ok snapshot ↔
      ∃ n < READINESS_ATTEMPTS, SettlesAt tr ptr ports preview w n snapshot := by
  rw [Retry.run_eq_ok_iff]
  refine exists_congr fun n => and_congr (by unfold READINESS_ATTEMPTS; omega) ?_
  unfold Retry.Asks
  simp only [verifyOnce_again_iff, verifyOnce_done_iff, ← readAt_eq]
  constructor
  · rintro ⟨hpending, hread, huncancelled, hready⟩
    exact ⟨hpending, huncancelled, hready, hread⟩
  · intro h
    exact ⟨h.pending, h.read, h.uncancelled, h.ready⟩

/-- Once a read has settled, it is what is reported on. -/
theorem execute_of_settles {w' : σ} (hrun : ports.applyBackendConfig preview w = (.ok commands, w'))
    (hran : Ran commands preview.operations) (hcancel : ports.isCancelled w' = false) {n : ℕ}
    (hn : n < READINESS_ATTEMPTS) (hsettles : SettlesAt tr ptr ports preview w' n snapshot) :
    (executeBackendApply tr ptr ports preview w).1 = reported preview (.ok snapshot) := by
  have hverified : (Retry.run (verifyOnce tr ptr ports preview commands) ports.pause
      (READINESS_ATTEMPTS - 1) w').1 = .ok snapshot :=
    verified_eq_ok_iff.mpr ⟨n, hn, hsettles⟩
  unfold executeBackendApply
  rw [hrun]
  dsimp only
  rw [invalidResults_eq_false.mpr hran, hcancel, if_neg Bool.false_ne_true,
    if_neg Bool.false_ne_true, hverified]

/-- **When success is reported**: every planned operation ran, in order, with exit status 0, the
user did not cancel, one of thirty reads finds the backend up and readable after reads that could
still change, and that read confirms every change. -/
theorem execute_eq_ok_iff :
    (executeBackendApply tr ptr ports preview w).1 = .ok ⟨snapshot⟩ ↔
      ∃ commands w', ports.applyBackendConfig preview w = (.ok commands, w') ∧
        Ran commands preview.operations ∧ ports.isCancelled w' = false ∧
        (∃ n < READINESS_ATTEMPTS, SettlesAt tr ptr ports preview w' n snapshot) ∧
        ∀ change ∈ preview.changes, confirmed change snapshot = true := by
  have hbroken : ∀ commands error w',
      (partialExecution ports preview commands error w').1 ≠ .ok ⟨snapshot⟩ := by
    intro commands error w'
    unfold partialExecution
    split <;> simp
  constructor
  · intro h
    unfold executeBackendApply at h
    split at h
    · exact absurd h (hbroken _ _ _)
    · rename_i commands w' hrun
      split at h
      · exact absurd h (hbroken _ _ _)
      · rename_i hvalid
        split at h
        · cases h
        · rename_i hcancel
          obtain ⟨hverified, hmismatches⟩ := reported_eq_ok_iff.mp h
          exact ⟨commands, w', hrun, invalidResults_eq_false.mp (Bool.eq_false_iff.mpr hvalid),
            Bool.eq_false_iff.mpr hcancel, verified_eq_ok_iff.mp hverified,
            readBackMismatches_eq_nil.mp hmismatches⟩
  · rintro ⟨commands, w', hrun, hran, hcancel, ⟨n, hn, hsettles⟩, hconfirmed⟩
    rw [execute_of_settles hrun hran hcancel hn hsettles]
    exact reported_eq_ok_iff.mpr ⟨rfl, readBackMismatches_eq_nil.mpr hconfirmed⟩

end

end Config

end Myna
