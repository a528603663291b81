import Myna.Config.ActiveBackend

/-!
# Myna — a switch that loses the model

Where a switch from one connected model ends with none, the model before it should have been put
back, or the user should hear of it. The connections are what the `view` of the world says; a read
that succeeds says the same, and between two reads they may change in any way.

* **`KeepsModel`** — a switch's end leaves the user with no less than it found, or says so;
* **`Loses`** — the ways in which it does not;
* **`keepsModel_iff`** — there are no others.
-/

namespace Myna

namespace Config

variable {σ : Type}

/-- A read that succeeds says what the connections are then. -/
def Ports.Truthful (ports : Ports σ) (view : σ → ConnectionSnapshot) : Prop :=
  ∀ w snapshot, (ports.refresh w).1 = .ok snapshot → snapshot = view (ports.refresh w).2

def SwitchOutcome.isApplied : SwitchOutcome → Bool
  | .applied .. => true
  | _ => false

def SwitchOutcome.isCancelled : SwitchOutcome → Bool
  | .cancelled .. => true
  | _ => false

/-- How a switch from `previous` should end. -/
structure KeepsModel (view : σ → ConnectionSnapshot) (previous : BackendIdentity)
    (ended : SwitchOutcome × SwitchRun σ) : Prop where
  restores : lostIn previous (view ended.2.world) = true →
    ∃ restore ∈ ended.2.executed, restore.selected = previous
  notices : lostIn previous (view ended.2.world) = true → ended.1.notice ≠ .none
  connected : ended.1.isApplied = true ∨ ended.1.isCancelled = true →
    (view ended.2.world).activeState ≠ .disconnected

variable (ports : Ports σ) (view : σ → ConnectionSnapshot) (plan : SwitchPlan)
  (previous : BackendIdentity)

/-! ## How a switch begins -/

/-- It ends before it has run anything, in the world `w'`. -/
inductive Refused (w : σ) : σ → Prop
  | unread {error : BackendSurfaceError} (h : (ports.refresh w).1 = .error error) :
      Refused w (ports.refresh w).2
  | stale {preflight : ConnectionSnapshot} (h : (ports.refresh w).1 = .ok preflight)
      (hne : preflight ≠ plan.baseline) : Refused w (ports.refresh w).2
  | busy {change : String} (h : (ports.refresh w).1 = .ok plan.baseline)
      (hnoop : plan.isNoop = false) (hcancel : ports.isCancelled (ports.refresh w).2 = false)
      (hchange : (changeHolding ports plan ⟨(ports.refresh w).2, []⟩).1 = some change) :
      Refused w (changeHolding ports plan ⟨(ports.refresh w).2, []⟩).2.world

/-- It was cancelled before it has run anything. -/
structure CancelledFirst (w : σ) : Prop where
  read : (ports.refresh w).1 = .ok plan.baseline
  notNoop : plan.isNoop = false
  cancelled : ports.isCancelled (ports.refresh w).2 = true

/-- It runs its plan from the world `w'` on. -/
structure Started (w w' : σ) : Prop where
  read : (ports.refresh w).1 = .ok plan.baseline
  notNoop : plan.isNoop = false
  notCancelled : ports.isCancelled (ports.refresh w).2 = false
  free : (changeHolding ports plan ⟨(ports.refresh w).2, []⟩).1 = none
  world : (changeHolding ports plan ⟨(ports.refresh w).2, []⟩).2.world = w'

/-! ## The ways to lose a model -/

/-- A loss that the switch does not answer. -/
inductive Loses (w : σ) : Prop
  /-- Something else took the model away before anything ran. -/
  | refused {w' : σ} (h : Refused ports plan w w') (lost : lostIn previous (view w') = true)
  | cancelledFirst (h : CancelledFirst ports plan w)
      (none : (view (ports.refresh (ports.refresh w).2).2).activeState = .disconnected)
  /-- Every step went well, and the model asked for is not there. -/
  | succeeded {w₂ w₃ : σ} {completed : List PlanResult} (h : Started ports plan w w₂)
      (hrun : ports.executeBackendSwitch plan .user w₂ = (.ok completed, w₃))
      (lost : lostIn previous (view (ports.refresh w₃).2) = true)
  /-- A step failed, and the connections could not be read after it. -/
  | failedUnread {w₂ w₃ : σ} {failure : SystemConfiguratorFailure} {error : BackendSurfaceError}
      (h : Started ports plan w w₂)
      (hrun : ports.executeBackendSwitch plan .user w₂ = (.error failure, w₃))
      (hread : (ports.refresh w₃).1 = .error error)
      (lost : lostIn previous (view (ports.refresh w₃).2) = true)
  | cancelledUnread {w₂ w₃ : σ} {failure : SystemConfiguratorFailure}
      {error : BackendSurfaceError} (h : Started ports plan w w₂)
      (hrun : ports.executeBackendSwitch plan .user w₂ = (.error failure, w₃))
      (hcancel : failure.error = .cancelled) (hread : (ports.refresh w₃).1 = .error error)
      (none : (view (ports.refresh w₃).2).activeState = .disconnected)
  /-- A step was cancelled, and the model before it has been removed. -/
  | cancelledGone {w₂ w₃ : σ} {failure : SystemConfiguratorFailure} {found : ConnectionSnapshot}
      (h : Started ports plan w w₂)
      (hrun : ports.executeBackendSwitch plan .user w₂ = (.error failure, w₃))
      (hcancel : failure.error = .cancelled) (hread : (ports.refresh w₃).1 = .ok found)
      (none : found.activeState = .disconnected) (gone : previous ∉ found.backends)
  /-- A step was cancelled, and putting the model back went well without connecting it. -/
  | restoredNone {w₂ w₃ w₅ : σ} {failure : SystemConfiguratorFailure}
      {found : ConnectionSnapshot} {restore : SwitchPlan} {ran : List PlanResult}
      (h : Started ports plan w w₂)
      (hrun : ports.executeBackendSwitch plan .user w₂ = (.error failure, w₃))
      (hcancel : failure.error = .cancelled) (hread : (ports.refresh w₃).1 = .ok found)
      (lost : lostIn previous found = true) (hplan : SwitchPlan.new found previous = .ok restore)
      (hrestore : ports.executeBackendSwitch restore .new (ports.refresh w₃).2 = (.ok ran, w₅))
      (none : (view (ports.refresh w₅).2).activeState = .disconnected)

/-! ## The run, path by path -/

section

variable {ports view plan previous} {w w₂ w₃ : σ}

theorem Ports.read_eq (run : SwitchRun σ) :
    ports.read run =
      ((ports.refresh run.world).1, ⟨(ports.refresh run.world).2, run.executed⟩) := rfl

theorem Ports.execute_eq (token : CancellationToken) (run : SwitchRun σ) :
    ports.execute plan token run =
      ((ports.executeBackendSwitch plan token run.world).1,
        ⟨(ports.executeBackendSwitch plan token run.world).2, run.executed ++ [plan]⟩) := rfl

theorem executeSwitch_refused {w' : σ} (h : Refused ports plan w w')
    (hoffered : plan.selected ∈ plan.baseline.backends) :
    ∃ outcome, executeSwitch ports plan ⟨w, []⟩ = (outcome, ⟨w', []⟩) ∧
      outcome.notice ≠ .none := by
  unfold executeSwitch
  rw [Ports.read_eq]
  cases h with
  | unread h =>
    rw [h]
    exact ⟨_, rfl, nofun⟩
  | stale h hne =>
    rw [h]
    dsimp only
    by_cases hnoop : plan.isNoop = true
    · rw [if_pos hnoop, if_neg hne]
      exact ⟨_, rfl, nofun⟩
    · rw [if_neg hnoop, if_pos (Or.inl hne)]
      exact ⟨_, rfl, nofun⟩
  | busy h hnoop hcancel hchange =>
    rw [h]
    dsimp only
    rw [hnoop, hcancel, if_neg Bool.false_ne_true, if_neg (by simp [hoffered]),
      if_neg Bool.false_ne_true]
    have hexecuted := changeHolding_executed ports plan ⟨(ports.refresh w).2, []⟩
    rcases hholding : changeHolding ports plan ⟨(ports.refresh w).2, []⟩ with ⟨found, world, ran⟩
    rw [hholding] at hchange hexecuted
    obtain rfl : found = some _ := hchange
    obtain rfl : ran = [] := hexecuted
    exact ⟨_, rfl, nofun⟩

theorem executeSwitch_cancelledFirst (h : CancelledFirst ports plan w)
    (hoffered : plan.selected ∈ plan.baseline.backends) :
    executeSwitch ports plan ⟨w, []⟩ =
      settleAfterRefresh ports [] .cancelled ⟨(ports.refresh w).2, []⟩ := by
  unfold executeSwitch
  rw [Ports.read_eq, h.read]
  dsimp only
  rw [h.notNoop, h.cancelled, if_neg Bool.false_ne_true, if_neg (by simp [hoffered]), if_pos rfl]

theorem executeSwitch_started (h : Started ports plan w w₂)
    (hoffered : plan.selected ∈ plan.baseline.backends) :
    executeSwitch ports plan ⟨w, []⟩ = carryOut ports plan ⟨w₂, []⟩ := by
  unfold executeSwitch
  rw [Ports.read_eq, h.read]
  dsimp only
  rw [h.notNoop, h.notCancelled, if_neg Bool.false_ne_true, if_neg (by simp [hoffered]),
    if_neg Bool.false_ne_true]
  have hexecuted := changeHolding_executed ports plan ⟨(ports.refresh w).2, []⟩
  have hfree := h.free
  have hworld := h.world
  rcases hholding : changeHolding ports plan ⟨(ports.refresh w).2, []⟩ with ⟨found, world, ran⟩
  rw [hholding] at hfree hexecuted hworld
  obtain rfl : found = none := hfree
  obtain rfl : ran = [] := hexecuted
  obtain rfl : world = w₂ := hworld
  rfl

/-- Every switch begins in one of these ways, or had nothing to do. -/
theorem begins (ports : Ports σ) (plan : SwitchPlan) (w : σ) :
    (∃ w', Refused ports plan w w') ∨ CancelledFirst ports plan w ∨
      (∃ w', Started ports plan w w') ∨
      ((ports.refresh w).1 = .ok plan.baseline ∧ plan.isNoop = true) := by
  cases hread : (ports.refresh w).1 with
  | error error => exact .inl ⟨_, .unread hread⟩
  | ok preflight =>
    by_cases hne : preflight = plan.baseline
    · subst hne
      cases hnoop : plan.isNoop with
      | true => exact .inr (.inr (.inr ⟨rfl, rfl⟩))
      | false =>
        cases hcancel : ports.isCancelled (ports.refresh w).2 with
        | true => exact .inr (.inl ⟨hread, hnoop, hcancel⟩)
        | false =>
          cases hchange : (changeHolding ports plan ⟨(ports.refresh w).2, []⟩).1 with
          | some change => exact .inl ⟨_, .busy hread hnoop hcancel hchange⟩
          | none => exact .inr (.inr (.inl ⟨_, hread, hnoop, hcancel, hchange, rfl⟩))
    · exact .inl ⟨_, .stale hread hne⟩

/-- A settled cancellation. -/
theorem settleAfterRefresh_cancelled (ports : Ports σ) (completed : List PlanResult)
    (run : SwitchRun σ) :
    ∃ snapshot error, settleAfterRefresh ports completed .cancelled run =
      (.cancelled completed snapshot error, (ports.read run).2) :=
  ⟨_, _, rfl⟩

/-- Any other settled failure. -/
theorem settleAfterRefresh_failed (completed : List PlanResult) {error : SystemConfiguratorError}
    (h : error ≠ .cancelled) (run : SwitchRun σ) :
    settleAfterRefresh ports completed error run =
      (.failed completed error (okAndErr (ports.read run).1).1 (okAndErr (ports.read run).1).2
        none, (ports.read run).2) := by
  unfold settleAfterRefresh
  cases error with
  | cancelled => exact absurd rfl h
  | _ => rfl

theorem settleAfterRefresh_run (completed : List PlanResult) (error : SystemConfiguratorError)
    (run : SwitchRun σ) :
    (settleAfterRefresh ports completed error run).2 = (ports.read run).2 := by
  unfold settleAfterRefresh
  cases error <;> rfl

theorem settleAfterRefresh_finalSnapshot (completed : List PlanResult)
    (error : SystemConfiguratorError) (run : SwitchRun σ) :
    (settleAfterRefresh ports completed error run).1.finalSnapshot =
      (okAndErr (ports.read run).1).1 := by
  unfold settleAfterRefresh
  cases error <;> rfl

/-- Every step went well: the read after it decides. -/
theorem carryOut_succeeded {completed : List PlanResult}
    (hrun : ports.executeBackendSwitch plan .user w₂ = (.ok completed, w₃)) :
    ∃ outcome, carryOut ports plan ⟨w₂, []⟩ = (outcome, ⟨(ports.refresh w₃).2, [plan]⟩) ∧
      outcome.isCancelled = false ∧
      (outcome.notice ≠ .none ∧ outcome.isApplied = false ∨
        ∃ found, (ports.refresh w₃).1 = .ok found ∧
          found.activeState = .connected plan.selected) := by
  unfold carryOut
  rw [Ports.execute_eq, hrun]
  dsimp only
  rw [Ports.read_eq]
  dsimp only
  cases hread : (ports.refresh w₃).1 with
  | error error => exact ⟨_, rfl, rfl, .inl ⟨nofun, rfl⟩⟩
  | ok found =>
    dsimp only
    by_cases hsel : selectedIsActive found plan.selected = true
    · rw [if_pos hsel]
      exact ⟨_, rfl, rfl, .inr ⟨found, rfl, by simpa [selectedIsActive] using hsel⟩⟩
    · rw [if_neg hsel]
      exact ⟨_, rfl, rfl, .inl ⟨nofun, rfl⟩⟩

section

variable {failure : SystemConfiguratorFailure} {found : ConnectionSnapshot} {restore : SwitchPlan}

/-- The read after a failed step shows no loss, or there is none. -/
theorem carryOut_unrestored (hbefore : plan.baseline.activeState = .connected previous)
    (hrun : ports.executeBackendSwitch plan .user w₂ = (.error failure, w₃))
    (hkept : ∀ found, (ports.refresh w₃).1 = .ok found → lostIn previous found = false) :
    carryOut ports plan ⟨w₂, []⟩ =
      settleAfterRefresh ports failure.completed failure.error ⟨w₃, [plan]⟩ := by
  have hfilter : (okAndErr (ports.refresh w₃).1).1.filter (lostIn previous) = none := by
    cases hread : (ports.refresh w₃).1 with
    | error error => rfl
    | ok found => simp [okAndErr, hkept found hread]
  unfold carryOut
  rw [Ports.execute_eq, hrun]
  show restoreLostModel ports plan
    (settleAfterRefresh ports failure.completed failure.error ⟨w₃, [plan]⟩).1
    (settleAfterRefresh ports failure.completed failure.error ⟨w₃, [plan]⟩).2 = _
  unfold restoreLostModel
  rw [hbefore]
  dsimp only
  rw [settleAfterRefresh_finalSnapshot, Ports.read_eq]
  dsimp only
  rw [hfilter]

/-- The read after a failed step shows the loss. -/
theorem carryOut_restored (hbefore : plan.baseline.activeState = .connected previous)
    (hrun : ports.executeBackendSwitch plan .user w₂ = (.error failure, w₃))
    (hread : (ports.refresh w₃).1 = .ok found) (hlost : lostIn previous found = true)
    (hplan : SwitchPlan.new found previous = .ok restore) :
    carryOut ports plan ⟨w₂, []⟩ =
      restoreWith ports restore
        (settleAfterRefresh ports failure.completed failure.error ⟨w₃, [plan]⟩).1
        ⟨(ports.refresh w₃).2, [plan]⟩ := by
  have hfilter : (okAndErr (ports.refresh w₃).1).1.filter (lostIn previous) = some found := by
    rw [hread]
    simp [okAndErr, hlost]
  unfold carryOut
  rw [Ports.execute_eq, hrun]
  show restoreLostModel ports plan
    (settleAfterRefresh ports failure.completed failure.error ⟨w₃, [plan]⟩).1
    (settleAfterRefresh ports failure.completed failure.error ⟨w₃, [plan]⟩).2 = _
  unfold restoreLostModel
  rw [hbefore]
  dsimp only
  rw [settleAfterRefresh_finalSnapshot, settleAfterRefresh_run, Ports.read_eq]
  dsimp only
  rw [hfilter]
  dsimp only
  rw [hplan]

/-- A restore leaves a failure, but for a cancellation that it put right. -/
theorem restoreWith_settled (ports : Ports σ) (plan restore : SwitchPlan)
    (failure : SystemConfiguratorFailure) (w₃ w₄ : σ) (executed : List SwitchPlan) :
    ∃ outcome, restoreWith ports restore
        (settleAfterRefresh ports failure.completed failure.error ⟨w₃, [plan]⟩).1 ⟨w₄, executed⟩ =
      (outcome, ⟨(ports.refresh (ports.executeBackendSwitch restore .new w₄).2).2,
        executed ++ [restore]⟩) ∧ outcome.isApplied = false ∧
      (outcome.notice ≠ .none ∧ outcome.isCancelled = false ∧
          (failure.error = .cancelled → ∀ ran,
            (ports.executeBackendSwitch restore .new w₄).1 ≠ .ok ran) ∨
        outcome.isCancelled = true ∧ outcome.notice = .none ∧ failure.error = .cancelled ∧
          ∃ ran, (ports.executeBackendSwitch restore .new w₄).1 = .ok ran) := by
  unfold restoreWith
  rw [Ports.execute_eq]
  dsimp only
  rw [Ports.read_eq]
  dsimp only
  by_cases hcancel : failure.error = .cancelled
  · obtain ⟨snapshot, error, hsettled⟩ :=
      settleAfterRefresh_cancelled ports failure.completed ⟨w₃, [plan]⟩
    rw [hcancel, hsettled]
    cases hrestore : (ports.executeBackendSwitch restore .new w₄).1 with
    | ok ran => exact ⟨_, rfl, rfl, .inr ⟨rfl, rfl, rfl, ran, rfl⟩⟩
    | error failure => exact ⟨_, rfl, rfl, .inl ⟨nofun, rfl, fun _ _ => nofun⟩⟩
  · rw [settleAfterRefresh_failed _ hcancel]
    exact ⟨_, rfl, rfl, .inl ⟨nofun, rfl, fun h => absurd h hcancel⟩⟩

end

end

/-! ## The claim of a switch's end -/

section

variable {ports view plan previous}

theorem lostIn_iff {snapshot : ConnectionSnapshot} :
    lostIn previous snapshot = true ↔
      snapshot.activeState = .disconnected ∧ previous ∈ snapshot.backends := by
  simp [lostIn]

theorem SwitchOutcome.notice_eq_none {outcome : SwitchOutcome}
    (h : outcome.isApplied = true ∨ outcome.isCancelled = true) : outcome.notice = .none := by
  cases outcome <;> first | rfl | simp [isApplied, isCancelled] at h

/-- An end that the user hears of, where nothing was put back. -/
theorem keepsModel_of_notice {outcome : SwitchOutcome} {run : SwitchRun σ}
    (hnotice : outcome.notice ≠ .none)
    (hrun : ∀ restore ∈ run.executed, restore.selected ≠ previous) :
    KeepsModel view previous (outcome, run) ↔ lostIn previous (view run.world) = false := by
  constructor
  · intro h
    rw [← Bool.not_eq_true]
    intro hlost
    obtain ⟨restore, hmem, hsel⟩ := h.restores hlost
    exact hrun restore hmem hsel
  · intro hkept
    refine ⟨?_, ?_, fun h => absurd (SwitchOutcome.notice_eq_none h) hnotice⟩
    · intro hlost
      rw [hkept] at hlost
      cases hlost
    · exact fun _ => hnotice

/-- An end that the user does not hear of. -/
theorem keepsModel_of_cancelled {outcome : SwitchOutcome} {run : SwitchRun σ}
    (hcancel : outcome.isCancelled = true) :
    KeepsModel view previous (outcome, run) ↔ (view run.world).activeState ≠ .disconnected := by
  constructor
  · exact fun h => h.connected (.inr hcancel)
  · intro hconnected
    have hkept : ¬ lostIn previous (view run.world) = true :=
      fun hlost => hconnected (lostIn_iff.mp hlost).1
    exact ⟨fun hlost => absurd hlost hkept, fun hlost => absurd hlost hkept, fun _ => hconnected⟩

/-- A loss that is answered by a restore the user hears of. -/
theorem keepsModel_of_restore {outcome : SwitchOutcome} {run : SwitchRun σ}
    (hnotice : outcome.notice ≠ .none)
    (hrun : ∃ restore ∈ run.executed, restore.selected = previous) :
    KeepsModel view previous (outcome, run) :=
  ⟨fun _ => hrun, fun _ => hnotice, fun h => absurd (SwitchOutcome.notice_eq_none h) hnotice⟩

/-- A plan that is no no-op asks for another model than the connected one. -/
theorem selected_ne_previous {baseline : ConnectionSnapshot} {selected : BackendIdentity}
    (hplan : SwitchPlan.new baseline selected = .ok plan)
    (hbefore : baseline.activeState = .connected previous) (hnoop : plan.isNoop = false) :
    plan.selected ≠ previous := by
  rintro rfl
  have hsel := (SwitchPlan.new_eq_ok hplan).2.2.1
  have hconnected : connectedBackends baseline = [selected] := by
    rw [connectedBackends, hbefore, ← hsel]
  rw [← SwitchPlan.new_isNoop hplan, hnoop] at hconnected
  cases hconnected

end

/-! ## Each path's end -/

section

variable {ports view plan previous} {w w₂ w₃ : σ} {completed : List PlanResult}
  {failure : SystemConfiguratorFailure}

theorem keepsModel_refused {w' : σ} (h : Refused ports plan w w')
    (hoffered : plan.selected ∈ plan.baseline.backends) :
    KeepsModel view previous (executeSwitch ports plan ⟨w, []⟩) ↔
      lostIn previous (view w') = false := by
  obtain ⟨outcome, heq, hnotice⟩ := executeSwitch_refused h hoffered
  rw [heq]
  exact keepsModel_of_notice hnotice (by simp)

theorem keepsModel_cancelledFirst (h : CancelledFirst ports plan w)
    (hoffered : plan.selected ∈ plan.baseline.backends) :
    KeepsModel view previous (executeSwitch ports plan ⟨w, []⟩) ↔
      (view (ports.refresh (ports.refresh w).2).2).activeState ≠ .disconnected := by
  rw [executeSwitch_cancelledFirst h hoffered]
  exact keepsModel_of_cancelled rfl

/-- With nothing to do, the model it began with is connected. -/
theorem keepsModel_noop (htruth : ports.Truthful view)
    (hbefore : plan.baseline.activeState = .connected previous)
    (hread : (ports.refresh w).1 = .ok plan.baseline) (hnoop : plan.isNoop = true) :
    KeepsModel view previous (executeSwitch ports plan ⟨w, []⟩) := by
  have heq : executeSwitch ports plan ⟨w, []⟩ =
      (.noop plan.baseline, ⟨(ports.refresh w).2, []⟩) := by
    unfold executeSwitch
    rw [Ports.read_eq, hread]
    dsimp only
    rw [if_pos hnoop, if_pos rfl]
  have hkept : ¬ lostIn previous (view (ports.refresh w).2) = true := by
    rw [← htruth _ _ hread, lostIn_iff, hbefore]
    rintro ⟨h, -⟩
    cases h
  rw [heq]
  exact ⟨fun hlost => absurd hlost hkept, fun hlost => absurd hlost hkept, nofun⟩

theorem keepsModel_succeeded (htruth : ports.Truthful view) (hne : plan.selected ≠ previous)
    (hrun : ports.executeBackendSwitch plan .user w₂ = (.ok completed, w₃)) :
    KeepsModel view previous (carryOut ports plan ⟨w₂, []⟩) ↔
      lostIn previous (view (ports.refresh w₃).2) = false := by
  obtain ⟨outcome, heq, hcancel, ⟨hnotice, -⟩ | ⟨found, hread, hactive⟩⟩ :=
    carryOut_succeeded hrun
  · rw [heq]
    exact keepsModel_of_notice hnotice (by simpa using hne)
  · rw [heq]
    have hview : (view (ports.refresh w₃).2).activeState = .connected plan.selected := by
      rw [← htruth _ _ hread]
      exact hactive
    have hkept : lostIn previous (view (ports.refresh w₃).2) = false := by
      rw [← Bool.not_eq_true, lostIn_iff, hview]
      rintro ⟨h, -⟩
      cases h
    refine ⟨fun _ => hkept, fun _ => ⟨?_, ?_, fun _ => ?_⟩⟩
    · intro hlost
      rw [hkept] at hlost
      cases hlost
    · intro hlost
      rw [hkept] at hlost
      cases hlost
    · rw [hview]
      nofun

/-- A failed step, with no loss to be seen after it. -/
theorem keepsModel_unrestored (hbefore : plan.baseline.activeState = .connected previous)
    (hne : plan.selected ≠ previous)
    (hrun : ports.executeBackendSwitch plan .user w₂ = (.error failure, w₃))
    (hkept : ∀ found, (ports.refresh w₃).1 = .ok found → lostIn previous found = false) :
    KeepsModel view previous (carryOut ports plan ⟨w₂, []⟩) ↔
      if failure.error = .cancelled then
        (view (ports.refresh w₃).2).activeState ≠ .disconnected
      else lostIn previous (view (ports.refresh w₃).2) = false := by
  rw [carryOut_unrestored hbefore hrun hkept]
  by_cases hcancel : failure.error = .cancelled
  · obtain ⟨snapshot, error, hsettled⟩ :=
      settleAfterRefresh_cancelled ports failure.completed ⟨w₃, [plan]⟩
    rw [if_pos hcancel, hcancel, hsettled]
    exact keepsModel_of_cancelled rfl
  · rw [if_neg hcancel, settleAfterRefresh_failed _ hcancel]
    rw [Ports.read_eq]
    exact keepsModel_of_notice nofun (by simpa using hne)

/-- A failed step, and a restore after it. -/
theorem keepsModel_restored {found : ConnectionSnapshot} {restore : SwitchPlan}
    (hbefore : plan.baseline.activeState = .connected previous)
    (hrun : ports.executeBackendSwitch plan .user w₂ = (.error failure, w₃))
    (hread : (ports.refresh w₃).1 = .ok found) (hlost : lostIn previous found = true)
    (hrestore : SwitchPlan.new found previous = .ok restore) :
    KeepsModel view previous (carryOut ports plan ⟨w₂, []⟩) ↔
      ∀ ran w₅, failure.error = .cancelled →
        ports.executeBackendSwitch restore .new (ports.refresh w₃).2 = (.ok ran, w₅) →
          (view (ports.refresh w₅).2).activeState ≠ .disconnected := by
  rw [carryOut_restored hbefore hrun hread hlost hrestore]
  have hselected := (SwitchPlan.new_eq_ok hrestore).2.2.1
  obtain ⟨outcome, heq, -, ⟨hnotice, -, hfailed⟩ | ⟨hcancelled, -, hcancel, ran, hran⟩⟩ :=
    restoreWith_settled ports plan restore failure w₃ (ports.refresh w₃).2 [plan]
  · rw [heq]
    refine ⟨fun _ ran w₅ hcancel hran => ?_, fun _ => ?_⟩
    · exact absurd (congrArg Prod.fst hran) (hfailed hcancel ran)
    · exact keepsModel_of_restore hnotice ⟨restore, by simp, hselected⟩
  · rw [heq, keepsModel_of_cancelled hcancelled]
    constructor
    · intro hconnected ran' w₅ _ hran'
      rw [hran'] at hconnected
      exact hconnected
    · intro h
      exact h ran _ hcancel (Prod.ext hran rfl)

/-- A read that shows the loss, or does not. -/
theorem lostIn_read {found other : ConnectionSnapshot} {lost : Bool}
    (hread : (ports.refresh w).1 = .ok found) (hlost : lostIn previous found = lost)
    (hother : (ports.refresh w).1 = .ok other) : lostIn previous other = lost := by
  obtain rfl := Except.ok.inj (hread.symm.trans hother)
  exact hlost

/-! ## The claim of all paths -/

/-- In each of those ways the model is lost. -/
theorem Loses.not_keepsModel (h : Loses ports view plan previous w) (htruth : ports.Truthful view)
    (hoffered : plan.selected ∈ plan.baseline.backends)
    (hbefore : plan.baseline.activeState = .connected previous)
    (hne : plan.isNoop = false → plan.selected ≠ previous) :
    ¬ KeepsModel view previous (executeSwitch ports plan ⟨w, []⟩) := by
  intro hkeeps
  cases h with
  | refused h lost =>
    rw [keepsModel_refused h hoffered, lost] at hkeeps
    cases hkeeps
  | cancelledFirst h none => exact (keepsModel_cancelledFirst h hoffered).mp hkeeps none
  | succeeded h hrun lost =>
    rw [executeSwitch_started h hoffered, keepsModel_succeeded htruth (hne h.notNoop) hrun,
      lost] at hkeeps
    cases hkeeps
  | failedUnread h hrun hread lost =>
    rw [executeSwitch_started h hoffered, keepsModel_unrestored hbefore (hne h.notNoop) hrun
      (by rw [hread]; nofun)] at hkeeps
    split at hkeeps
    · exact hkeeps (lostIn_iff.mp lost).1
    · rw [lost] at hkeeps
      cases hkeeps
  | cancelledUnread h hrun hcancel hread none =>
    rw [executeSwitch_started h hoffered, keepsModel_unrestored hbefore (hne h.notNoop) hrun
      (by rw [hread]; nofun), if_pos hcancel] at hkeeps
    exact hkeeps none
  | cancelledGone h hrun hcancel hread none gone =>
    have hkept := Bool.eq_false_iff.mpr (mt (fun h => (lostIn_iff.mp h).2) gone)
    rw [executeSwitch_started h hoffered, keepsModel_unrestored hbefore (hne h.notNoop) hrun
      (fun _ => lostIn_read hread hkept), if_pos hcancel, ← htruth _ _ hread] at hkeeps
    exact hkeeps none
  | restoredNone h hrun hcancel hread lost hrestore hran none =>
    rw [executeSwitch_started h hoffered,
      keepsModel_restored hbefore hrun hread lost hrestore] at hkeeps
    exact hkeeps _ _ hcancel hran none

/-- A run that has begun keeps the model, or loses it in one of those ways. -/
theorem keepsModel_started (h : Started ports plan w w₂) (htruth : ports.Truthful view)
    (hbefore : plan.baseline.activeState = .connected previous)
    (hne : plan.selected ≠ previous) (hnone : ¬ Loses ports view plan previous w) :
    KeepsModel view previous (carryOut ports plan ⟨w₂, []⟩) := by
  rcases hrun : ports.executeBackendSwitch plan .user w₂ with ⟨failure | completed, w₃⟩
  · -- a step failed: what the read after it says decides
    rcases hread : (ports.refresh w₃).1 with error | found
    · rw [keepsModel_unrestored hbefore hne hrun (by rw [hread]; nofun)]
      split
      · rename_i hcancel
        exact fun none => hnone (.cancelledUnread h hrun hcancel hread none)
      · rw [← Bool.not_eq_true]
        exact fun lost => hnone (.failedUnread h hrun hread lost)
    · cases hlost : lostIn previous found with
      | true =>
        obtain ⟨restore, hrestore⟩ := SwitchPlan.exists_new (lostIn_iff.mp hlost).2
        rw [keepsModel_restored hbefore hrun hread hlost hrestore]
        exact fun ran w₅ hcancel hran none =>
          hnone (.restoredNone h hrun hcancel hread hlost hrestore hran none)
      | false =>
        rw [keepsModel_unrestored hbefore hne hrun (fun _ => lostIn_read hread hlost),
          ← htruth _ _ hread]
        split
        · rename_i hcancel
          intro none
          refine hnone (.cancelledGone h hrun hcancel hread none fun hmem => ?_)
          exact Bool.eq_false_iff.mp hlost (lostIn_iff.mpr ⟨none, hmem⟩)
        · exact hlost
  · rw [keepsModel_succeeded htruth hne hrun, ← Bool.not_eq_true]
    exact fun lost => hnone (.succeeded h hrun lost)

end

/-- **When a switch keeps the model.** From one connected model, over every answer to every call:
it fails to in the ways of `Loses`, and in no other. -/
theorem keepsModel_iff (htruth : ports.Truthful view) {baseline : ConnectionSnapshot}
    {selected : BackendIdentity} (hplan : SwitchPlan.new baseline selected = .ok plan)
    (hbefore : baseline.activeState = .connected previous) (w : σ) :
    KeepsModel view previous (executeSwitch ports plan ⟨w, []⟩) ↔
      ¬ Loses ports view plan previous w := by
  obtain ⟨hmem, rfl, rfl, -⟩ := SwitchPlan.new_eq_ok hplan
  have hne := selected_ne_previous hplan hbefore
  constructor
  · exact fun hkeeps hloses => hloses.not_keepsModel htruth hmem hbefore hne hkeeps
  · intro hnone
    rcases begins ports plan w with
      ⟨w', h⟩ | h | ⟨w₂, h⟩ | ⟨hread, hnoop⟩
    · rw [keepsModel_refused h hmem, ← Bool.not_eq_true]
      exact fun lost => hnone (.refused h lost)
    · rw [keepsModel_cancelledFirst h hmem]
      exact fun none => hnone (.cancelledFirst h none)
    · rw [executeSwitch_started h hmem]
      exact keepsModel_started h htruth hbefore (hne h.notNoop) hnone
    · exact keepsModel_noop htruth hbefore hread hnoop

/-! ## A dismissed prompt -/

def whisper : BackendIdentity := .new "myna-whisper" "provider"

def parakeet : BackendIdentity := .new "myna-parakeet" "provider"

/-- Whisper is connected. -/
def wired : ConnectionSnapshot := ⟨[parakeet, whisper], .connected whisper, []⟩

/-- Nothing is connected. -/
def unwired : ConnectionSnapshot := ⟨[parakeet, whisper], .disconnected, []⟩

def toParakeet : SwitchPlan :=
  ⟨wired, parakeet,
    [privilegedSnapRequest "disconnect" whisper.slot,
      privilegedSnapRequest "connect" parakeet.slot, mynaRestartRequest]⟩

theorem new_toParakeet : SwitchPlan.new wired parakeet = .ok toParakeet := rfl

/-- The prompt is dismissed once the model has been disconnected. The connections can be read
then, or not, and a restore goes well. -/
def dismissed (readable : Bool) : Ports ConnectionSnapshot :=
  { refresh := fun w =>
      (if readable || w = wired then .ok w else .error ⟨.connections, "snapd is restarting", ""⟩, w)
    changesInProgress := fun w => (.ok [], w)
    executeBackendSwitch := fun _ token w =>
      match token with
      | .user => (.error ⟨[⟨"snap", ["disconnect", "myna:backend", whisper.slot], some 0, "", ""⟩],
          .cancelled⟩, unwired)
      | .new => (.ok [], if w = unwired then wired else w)
    isCancelled := fun _ => false }

theorem dismissed_truthful (readable : Bool) : (dismissed readable).Truthful id := by
  intro w snapshot h
  have h : (if readable || w = wired then Except.ok w else
      Except.error (BackendSurfaceError.mk .connections "snapd is restarting" "")) =
    .ok snapshot := h
  split at h
  · exact (Except.ok.inj h).symm
  · cases h

theorem dismissed_keeps : ¬ Loses (dismissed true) id toParakeet whisper wired :=
  (keepsModel_iff (dismissed true) id toParakeet whisper (dismissed_truthful true) new_toParakeet
    rfl wired).mp ⟨by decide +kernel, by decide +kernel, by decide +kernel⟩

/-- The model is gone, nothing was put back, and the user hears nothing. -/
theorem dismissed_loses :
    (dismissed false).Truthful id ∧ SwitchPlan.new wired parakeet = .ok toParakeet ∧
      (executeSwitch (dismissed false) toParakeet ⟨wired, []⟩).1.notice = .none ∧
      (executeSwitch (dismissed false) toParakeet ⟨wired, []⟩).2 = ⟨unwired, [toParakeet]⟩ ∧
      ¬ KeepsModel id whisper (executeSwitch (dismissed false) toParakeet ⟨wired, []⟩) := by
  have hnotice : (executeSwitch (dismissed false) toParakeet ⟨wired, []⟩).1.notice = .none := by
    decide +kernel
  have hrun : (executeSwitch (dismissed false) toParakeet ⟨wired, []⟩).2 =
      ⟨unwired, [toParakeet]⟩ := rfl
  refine ⟨dismissed_truthful false, new_toParakeet, hnotice, hrun, fun h => ?_⟩
  refine h.notices ?_ hnotice
  rw [hrun]
  decide +kernel

end Config

end Myna
