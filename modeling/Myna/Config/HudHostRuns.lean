import Mathlib.Algebra.Group.Nat.Defs
import Myna.Config.HudHost

/-!
# Myna — the HUD's supervision, over whole runs

* **`World.Agrees`** — what each state of the child says of the processes, the timers and the tally;
* **`step_inv`** — an event keeps it;
* **`feed_planned`** — an exit is answered as the extension's policy answers it;
* **`hud_supervised`** — the supervision of every run.
-/

namespace Myna

namespace Config

namespace HudHost

/-! ## The invariant -/

namespace World

/-- No HUD lives. -/
def Idle (w : World) : Prop :=
  w.live = 0 ∧ w.terminated = false ∧ w.killed = false ∧ w.kill = none

/-- What the machine's child says of the world. -/
def Agrees (w : World) : Prop :=
  match w.machine.child with
  | .none =>
    w.Idle ∧ w.restart = none ∧ w.pending = w.machine.startable ∧
      (w.pending = true → w.machine.failures ≤ RESTART_BUDGET)
  | .running _ =>
    w.live = 1 ∧ w.terminated = false ∧ w.killed = false ∧ w.kill = none ∧ w.restart = none ∧
      w.pending = false ∧ w.machine.startable = true ∧ w.machine.failures ≤ RESTART_BUDGET
  | .stopping thenStart =>
    w.live = 1 ∧ w.terminated = true ∧ w.kill.isSome = !w.killed ∧ w.restart = none ∧
      w.pending = false ∧ (w.machine.owned && !w.machine.refused) = thenStart ∧
      w.machine.failures = 0 ∧ w.machine.dormant = false
  | .backoff =>
    w.Idle ∧ w.restart.isSome = true ∧ w.pending = false ∧ w.machine.startable = true ∧
      w.restarts < w.machine.failures ∧ w.machine.failures ≤ RESTART_BUDGET

structure Inv (w : World) : Prop where
  agrees : w.Agrees
  registered : w.machine.registered = w.machine.startable
  unowned : w.machine.owned = false → w.machine.failures = 0 ∧ w.machine.dormant = false
  tally : w.restarts ≤ w.machine.failures
  budget : w.restarts ≤ RESTART_BUDGET
  ended : w.ended = true → w.machine.owned = false

end World

open World

theorem start_inv (graceMs : ℕ) : (start graceMs).Inv where
  agrees := ⟨⟨rfl, rfl, rfl, rfl⟩, rfl, rfl, nofun⟩
  registered := rfl
  unowned _ := ⟨rfl, rfl⟩
  tally := Nat.le_refl 0
  budget := Nat.zero_le _
  ended := nofun

namespace Machine

theorem fail_spent {m : Machine} (h : RESTART_BUDGET < m.failures + 1) :
    m.fail = ({ m with failures := m.failures + 1, dormant := true, registered := false },
      (if m.registered then [.unregister] else []) ++ [.log .dormant]) := by
  simp [fail, unregister, h]

theorem fail_retries {m : Machine} (h : ¬ RESTART_BUDGET < m.failures + 1) :
    m.fail = ({ m with failures := m.failures + 1, child := .backoff },
      [.armRestart (backoffMs (m.failures + 1))]) := by
  simp only [fail, if_neg h]

section

variable {m : Machine} {code : Option Int} {nowMs sinceMs : ℕ}

theorem exited_refused (hchild : m.child = .running sinceMs) :
    m.exited (some EXIT_CANNOT_HOST) nowMs =
      ({ m with child := .none, refused := true, registered := false },
        (if m.registered then [.unregister] else []) ++ [.log .cannotHost]) := by
  simp [exited, hchild, unregister]

theorem exited_healthy (hchild : m.child = .running sinceMs) (hcode : code ≠ some EXIT_CANNOT_HOST)
    (h : HEALTHY_UPTIME_MS ≤ nowMs - sinceMs) :
    m.exited code nowMs = { m with child := .none, failures := 0 }.fail := by
  simp [exited, hchild, hcode, h]

theorem exited_early (hchild : m.child = .running sinceMs) (hcode : code ≠ some EXIT_CANNOT_HOST)
    (h : ¬ HEALTHY_UPTIME_MS ≤ nowMs - sinceMs) :
    m.exited code nowMs = { m with child := .none }.fail := by
  simp only [exited, hchild, if_neg hcode, if_neg h]

end

end Machine

/-! ## One event

The world is taken apart, and each state of the child is a case: the machine then computes. -/

section

attribute [local simp] feed noted healthy loses perform Agrees Idle Machine.startable Machine.step

variable {w : World}

theorem nameOwned_inv (h : w.Inv) (hpending : w.pending = false) : (w.feed .nameOwned).Inv := by
  obtain ⟨⟨owned, child, failures, refused, dormant, registered, grace⟩, live, terminated, killed,
    restart, kill, pending, unhealthy, restarts, ended⟩ := w
  obtain ⟨hagrees, hregistered, hunowned, htally, hbudget, hended⟩ := h
  cases owned with
  | true =>
    -- the name is owned already
    constructor <;> simp_all [Machine.nameOwned]
  | false =>
    obtain ⟨rfl, rfl⟩ := hunowned rfl
    cases refused <;> cases child <;> constructor <;> simp_all [Machine.nameOwned]

theorem nameLost_inv (h : w.Inv) (hpending : w.pending = false) : (w.feed .nameLost).Inv := by
  obtain ⟨⟨owned, child, failures, refused, dormant, registered, grace⟩, live, terminated, killed,
    restart, kill, pending, unhealthy, restarts, ended⟩ := w
  obtain ⟨hagrees, hregistered, hunowned, htally, hbudget, hended⟩ := h
  cases owned with
  | false =>
    -- there is no name to lose
    constructor <;> simp_all [Machine.nameLost]
  | true => cases child <;> constructor <;> simp_all [Machine.nameLost]

theorem shutdown_inv (h : w.Inv) (hpending : w.pending = false) : (w.feed .shutdown).Inv := by
  obtain ⟨⟨owned, child, failures, refused, dormant, registered, grace⟩, live, terminated, killed,
    restart, kill, pending, unhealthy, restarts, ended⟩ := w
  obtain ⟨hagrees, hregistered, hunowned, htally, hbudget, hended⟩ := h
  cases owned with
  | false => constructor <;> simp_all [Machine.unregister, Machine.nameLost]
  | true =>
    cases registered <;> cases child <;> constructor <;>
      simp_all [Machine.unregister, Machine.nameLost]

theorem restartDue_inv (h : w.Inv) (hpending : w.pending = false) : (w.feed .restartDue).Inv := by
  obtain ⟨⟨owned, child, failures, refused, dormant, registered, grace⟩, live, terminated, killed,
    restart, kill, pending, unhealthy, restarts, ended⟩ := w
  obtain ⟨hagrees, hregistered, hunowned, htally, hbudget, hended⟩ := h
  cases child <;> constructor <;> simp_all
  all_goals omega

theorem killDue_inv (h : w.Inv) (hpending : w.pending = false) : (w.feed .killDue).Inv := by
  obtain ⟨⟨owned, child, failures, refused, dormant, registered, grace⟩, live, terminated, killed,
    restart, kill, pending, unhealthy, restarts, ended⟩ := w
  obtain ⟨hagrees, hregistered, hunowned, htally, hbudget, hended⟩ := h
  cases child <;> constructor <;> simp_all

theorem spawned_inv (h : w.Inv) (hpending : w.pending = true) (nowMs : ℕ) :
    ({ w with pending := false, live := w.live + 1 }.feed (.spawned nowMs)).Inv := by
  obtain ⟨⟨owned, child, failures, refused, dormant, registered, grace⟩, live, terminated, killed,
    restart, kill, pending, unhealthy, restarts, ended⟩ := w
  obtain ⟨hagrees, hregistered, hunowned, htally, hbudget, hended⟩ := h
  -- only where there is no child is a spawn to be answered
  cases child <;> constructor <;> simp_all

theorem spawnFailed_inv (h : w.Inv) (hpending : w.pending = true) (nowMs : ℕ) :
    ({ w with pending := false }.feed (.spawnFailed nowMs)).Inv := by
  obtain ⟨⟨owned, child, failures, refused, dormant, registered, grace⟩, live, terminated, killed,
    restart, kill, pending, unhealthy, restarts, ended⟩ := w
  obtain ⟨hagrees, hregistered, hunowned, htally, hbudget, hended⟩ := h
  cases child with
  | none =>
    by_cases hspent : RESTART_BUDGET < failures + 1
    · constructor <;> simp_all [Machine.exited, Machine.fail_spent]
      omega
    · constructor <;> simp_all [Machine.exited, Machine.fail_retries] <;> omega
  | running sinceMs => simp_all
  | stopping thenStart => simp_all
  | backoff => simp_all

/-- The HUD that exits is gone before the machine hears of it. -/
theorem exited_inv (h : w.Inv) (hpending : w.pending = false) (hlive : 0 < w.live)
    (code : Option Int) (nowMs : ℕ) :
    ({ w with live := w.live - 1, terminated := false, killed := false }.feed
      (.exited code nowMs)).Inv := by
  obtain ⟨⟨owned, child, failures, refused, dormant, registered, grace⟩, live, terminated, killed,
    restart, kill, pending, unhealthy, restarts, ended⟩ := w
  obtain ⟨hagrees, hregistered, hunowned, htally, hbudget, hended⟩ := h
  cases child with
  | none => simp_all
  | backoff => simp_all
  | stopping thenStart =>
    cases thenStart <;> constructor <;> simp_all [Machine.exited]
  | running sinceMs =>
    by_cases hhealthy : HEALTHY_UPTIME_MS ≤ nowMs - sinceMs
    · by_cases hcode : code = some EXIT_CANNOT_HOST
      · subst hcode
        constructor <;> simp_all [Machine.exited_refused]
      · -- the first failure after a healthy run
        have hfirst : ¬ RESTART_BUDGET < 0 + 1 := by decide
        constructor <;> simp_all [Machine.exited_healthy, Machine.fail_retries]
        decide
    · have hcold : (decide (HEALTHY_UPTIME_MS ≤ nowMs - sinceMs)) = false :=
        decide_eq_false hhealthy
      by_cases hcode : code = some EXIT_CANNOT_HOST
      · subst hcode
        clear hhealthy
        constructor <;> simp_all [Machine.exited_refused]
        all_goals split <;> omega
      · have hearly := fun m (hchild : Machine.child m = .running sinceMs) =>
          Machine.exited_early hchild hcode hhealthy
        clear hhealthy
        by_cases hspent : RESTART_BUDGET < failures + 1
        · constructor <;> simp_all [Machine.fail_spent]
          · split <;> omega
          · split <;> omega
        · constructor <;> simp_all [Machine.fail_retries]
          · split <;> omega
          · split <;> omega
          · split <;> omega

end

variable {w w' : World} {graceMs : ℕ}

theorem step_inv {event : Event} (h : w.Inv) (hstep : w.next event = some w') : w'.Inv := by
  cases event with
  | spawned nowMs =>
    simp only [next, Option.ite_none_right_eq_some, Option.some.injEq] at hstep
    obtain ⟨hpending, rfl⟩ := hstep
    exact spawned_inv h hpending nowMs
  | spawnFailed nowMs =>
    simp only [next, Option.ite_none_right_eq_some, Option.some.injEq] at hstep
    obtain ⟨hpending, rfl⟩ := hstep
    exact spawnFailed_inv h hpending nowMs
  | exited code nowMs =>
    simp only [next, Option.ite_none_right_eq_some, Option.some.injEq, Bool.and_eq_true,
      Bool.not_eq_true', decide_eq_true_eq] at hstep
    obtain ⟨⟨hpending, hlive⟩, rfl⟩ := hstep
    exact exited_inv h hpending hlive code nowMs
  | _ =>
    simp only [next, Option.ite_none_left_eq_some, Option.some.injEq, Bool.not_eq_true] at hstep
    obtain ⟨hpending, rfl⟩ := hstep
    first
      | exact nameOwned_inv h hpending
      | exact nameLost_inv h hpending
      | exact restartDue_inv h hpending
      | exact killDue_inv h hpending
      | exact shutdown_inv h hpending

theorem reachable_inv (h : Reachable graceMs w) : w.Inv :=
  StepSystem.reachable_induction h (start_inv graceMs) fun _ _ hinv ⟨_, hstep⟩ =>
    step_inv hinv hstep

theorem run_reachable {events : List Event} (h : (start graceMs).run events = some w) :
    Reachable graceMs w := by
  have hrun : ∀ {v : World}, v.run events = some w → Relation.ReflTransGen Step v w := by
    intro v hv
    clear h
    induction events generalizing v with
    | nil =>
      obtain rfl := Option.some.inj hv
      exact .refl
    | cons event events ih =>
      obtain ⟨v', hstep, hrest⟩ := Option.bind_eq_some_iff.mp hv
      exact .head ⟨event, hstep⟩ (ih hrest)
  exact hrun h

/-! ## The extension's policy -/

/-- How long the HUD ran that this event ends. -/
def World.uptime (w : World) (event : Event) : ℕ :=
  match w.machine.child, event with
  | .running sinceMs, .exited _ nowMs => nowMs - sinceMs
  | _, _ => 0

/-- The HUD is gone, or could not be started. -/
def Event.isEnd : Event → Bool
  | .exited _ _ | .spawnFailed _ => true
  | _ => false

/-- The HUD says that this session cannot host it. -/
def World.refuses (w : World) : Event → Bool
  | .exited code _ => !w.terminated && code = some EXIT_CANNOT_HOST
  | _ => false

theorem backoffMs_eq : ∀ failures ≤ RESTART_BUDGET,
    Machine.backoffMs failures = min MAX_BACKOFF_MS (BASE_BACKOFF_MS * 2 ^ (failures - 1)) := by
  decide

/-- The world does as `plan` says. -/
structure Follows (w : World) (plan : Plan) : Prop where
  restart : w.restart = if plan.restart then some plan.delayMs else none
  failures : w.machine.failures = plan.consecutiveFailures
  dormant : w.machine.dormant = plan.dormant

section

attribute [local simp] feed noted healthy loses perform Agrees Idle Machine.startable Machine.step

/-- A failure is planned as `planRestart` plans the next one after `failures`. -/
theorem follows_fail {w : World} {m : Machine} {failures uptimeMs : ℕ} (hrestart : w.restart = none)
    (hprior : m.failures = if HEALTHY_UPTIME_MS ≤ uptimeMs then 0 else failures)
    (hawake : m.dormant = false) :
    Follows (m.fail.2.foldl perform { w with machine := m.fail.1 })
      (planRestart failures false uptimeMs) := by
  have hplan : planRestart failures false uptimeMs =
      if RESTART_BUDGET < m.failures + 1 then ⟨false, 0, m.failures + 1, true⟩
      else ⟨true, min MAX_BACKOFF_MS (BASE_BACKOFF_MS * 2 ^ (m.failures + 1 - 1)),
        m.failures + 1, false⟩ := by
    simp [planRestart, hprior]
  rw [hplan]
  by_cases hspent : RESTART_BUDGET < m.failures + 1
  · rw [Machine.fail_spent hspent, if_pos hspent]
    cases m.registered <;> exact ⟨by simpa using hrestart, by simp, by simp⟩
  · rw [Machine.fail_retries hspent, if_neg hspent]
    refine ⟨?_, rfl, hawake⟩
    rw [← backoffMs_eq _ (by omega)]
    simp

/-- **A HUD that is gone.** What the host does about it is what the extension plans. -/
theorem end_planned (h : w.Inv) {event : Event} (hend : event.isEnd = true)
    (hhosts : w.refuses event = false) (hstep : w.next event = some w') :
    Follows w' (planRestart w.machine.failures w.terminated (w.uptime event)) := by
  obtain ⟨⟨owned, child, failures, refused, dormant, registered, grace⟩, live, terminated, killed,
    restart, kill, pending, unhealthy, restarts, ended⟩ := w
  obtain ⟨hagrees, hregistered, hunowned, htally, hbudget, hended⟩ := h
  cases event with
  | exited code nowMs =>
    simp only [next, Option.ite_none_right_eq_some, Option.some.injEq, Bool.and_eq_true,
      Bool.not_eq_true', decide_eq_true_eq] at hstep
    obtain ⟨⟨hpending, hlive⟩, rfl⟩ := hstep
    cases child with
    | none => simp_all
    | backoff => simp_all
    | stopping thenStart =>
      obtain ⟨-, rfl, -, rfl, -, -, -, rfl⟩ := hagrees
      simp only [feed, Machine.step, Machine.exited, planRestart]
      constructor <;> split <;> simp
    | running sinceMs =>
      obtain ⟨-, rfl, -, -, rfl, -, hstartable, -⟩ := hagrees
      have hcode : code ≠ some EXIT_CANNOT_HOST := by simpa [refuses] using hhosts
      have hawake : dormant = false := by simp_all
      simp only [feed, Machine.step, uptime]
      by_cases hhealthy : HEALTHY_UPTIME_MS ≤ nowMs - sinceMs
      · rw [Machine.exited_healthy rfl hcode hhealthy]
        exact follows_fail rfl (by simp [hhealthy]) hawake
      · rw [Machine.exited_early rfl hcode hhealthy]
        exact follows_fail rfl (by rw [if_neg hhealthy]) hawake
  | spawnFailed nowMs =>
    simp only [next, Option.ite_none_right_eq_some, Option.some.injEq] at hstep
    obtain ⟨hpending, rfl⟩ := hstep
    cases child with
    | none =>
      obtain ⟨⟨-, rfl, -⟩, rfl, hstartable, -⟩ := hagrees
      have hawake : dormant = false := by
        have hready := hstartable.symm.trans hpending
        simp only [Machine.startable, Bool.and_eq_true, Bool.not_eq_true'] at hready
        exact hready.2
      have hfail : ∀ m : Machine, m.child = .none → m.startable = true →
          m.exited none nowMs = m.fail := by
        intro m hchild hm
        simp only [Machine.exited, hchild, hm, if_true]
      simp only [feed, Machine.step, uptime]
      rw [hfail _ rfl (hstartable.symm.trans hpending)]
      exact follows_fail rfl rfl hawake
    | running sinceMs => simp_all
    | stopping thenStart => simp_all
    | backoff => simp_all
  | _ => simp [Event.isEnd] at hend

end

theorem foldl_perform_restart {actions : List Action} (w : World)
    (h : ∀ delayMs, .armRestart delayMs ∉ actions) :
    (actions.foldl perform w).restart = none ∨ (actions.foldl perform w).restart = w.restart := by
  induction actions generalizing w with
  | nil => exact .inr rfl
  | cons action actions ih =>
    have hrest : ∀ delayMs, .armRestart delayMs ∉ actions :=
      fun delayMs hmem => h delayMs (List.mem_cons_of_mem _ hmem)
    rw [List.foldl_cons]
    rcases ih (w.perform action) hrest with hnone | hsame
    · exact .inl hnone
    · rw [hsame]
      cases action with
      | armRestart delayMs => exact absurd List.mem_cons_self (h delayMs)
      | cancelRestart => exact .inl rfl
      | _ => exact .inr rfl

theorem armRestart_not_mem_nameLost (m : Machine) (delayMs : ℕ) :
    .armRestart delayMs ∉ m.nameLost.2 := by
  unfold Machine.nameLost
  split
  · simp
  · dsimp only
    split <;> simp

/-- Only the end of a HUD, or a start that failed, has the machine arm a restart. -/
theorem isEnd_of_armRestart {m : Machine} {event : Event} {delayMs : ℕ}
    (h : .armRestart delayMs ∈ (m.step event).2) : event.isEnd = true := by
  cases event with
  | exited code nowMs => rfl
  | spawnFailed nowMs => rfl
  | nameLost => exact absurd h (armRestart_not_mem_nameLost m delayMs)
  | shutdown =>
    rcases List.mem_append.mp h with hfirst | hsecond
    · cases hregistered : m.registered <;> simp [hregistered] at hfirst
    · exact absurd hsecond (armRestart_not_mem_nameLost _ delayMs)
  | _ =>
    revert h
    simp only [Machine.step, Machine.nameOwned]
    repeat' split
    all_goals simp

/-- No other event arms a restart, nor does a HUD that cannot be hosted. -/
theorem restart_kept (h : w.Inv) {event : Event}
    (hother : event.isEnd = false ∨ w.refuses event = true) (hstep : w.next event = some w') :
    w'.restart = none ∨ w'.restart = w.restart := by
  have hfed : ∀ v : World, (∀ delayMs, .armRestart delayMs ∉ (v.machine.step event).2) →
      v.restart = w.restart →
      (v.feed event).restart = none ∨ (v.feed event).restart = w.restart := by
    intro v hnone hsame
    rcases foldl_perform_restart { v.noted event with machine := (v.machine.step event).1 } hnone
      with hcut | hkept
    · exact .inl hcut
    · unfold feed
      rw [hkept, ← hsame]
      by_cases hdue : event = .restartDue
      · simp [noted, hdue]
      · simp [noted, hdue]
  rcases hother with hother | hrefuses
  · have hnone : ∀ (m : Machine) (delayMs : ℕ), .armRestart delayMs ∉ (m.step event).2 := by
      intro m delayMs hmem
      rw [isEnd_of_armRestart hmem] at hother
      cases hother
    cases event with
    | exited code nowMs => cases hother
    | spawnFailed nowMs => cases hother
    | spawned nowMs =>
      simp only [next, Option.ite_none_right_eq_some, Option.some.injEq] at hstep
      obtain ⟨-, rfl⟩ := hstep
      exact hfed _ (hnone _) rfl
    | _ =>
      simp only [next, Option.ite_none_left_eq_some, Option.some.injEq] at hstep
      obtain ⟨-, rfl⟩ := hstep
      exact hfed _ (hnone _) rfl
  · cases event with
    | exited code nowMs =>
      simp only [next, Option.ite_none_right_eq_some, Option.some.injEq, Bool.and_eq_true,
        Bool.not_eq_true', decide_eq_true_eq] at hstep
      obtain ⟨⟨-, hlive⟩, rfl⟩ := hstep
      simp only [refuses, Bool.and_eq_true, Bool.not_eq_true', decide_eq_true_eq] at hrefuses
      obtain ⟨hrunning, rfl⟩ := hrefuses
      refine hfed _ (fun delayMs => ?_) rfl
      have hagrees := h.agrees
      unfold Agrees at hagrees
      cases hchild : w.machine.child with
      | none =>
        rw [hchild] at hagrees
        simp only [hagrees.1.1, Nat.lt_irrefl] at hlive
      | backoff =>
        rw [hchild] at hagrees
        simp only [hagrees.1.1, Nat.lt_irrefl] at hlive
      | stopping thenStart =>
        rw [hchild] at hagrees
        rw [hagrees.2.1] at hrunning
        cases hrunning
      | running sinceMs =>
        simp only [Machine.step]
        rw [Machine.exited_refused hchild]
        cases w.machine.registered <;> simp
    | _ => simp [refuses] at hrefuses

/-! ## The supervision -/

/-- What is so at every moment of a run. -/
structure Supervised (w : World) : Prop where
  one : w.live ≤ 1
  -- a spawn is asked for only where one may start
  spawns : w.pending = true → w.machine.startable = true
  ready : w.pending = false → w.machine.startable = true →
    (∃ sinceMs, w.machine.child = .running sinceMs) ∨ w.machine.child = .stopping true ∨
      (w.machine.child = .backoff ∧ w.restart.isSome = true)
  registered : w.machine.registered = w.machine.startable
  -- a HUD that was told to stop has its kill timer, until that is due and it is killed
  kill : w.kill.isSome = true ↔ w.terminated = true ∧ w.killed = false
  terminated : w.terminated = true → w.live = 1
  budget : w.restarts ≤ RESTART_BUDGET
  ended : w.ended = true → w.pending = false

theorem supervised (h : w.Inv) : Supervised w := by
  obtain ⟨⟨owned, child, failures, refused, dormant, registered, grace⟩, live, terminated, killed,
    restart, kill, pending, unhealthy, restarts, ended⟩ := w
  obtain ⟨hagrees, hregistered, hunowned, htally, hbudget, hended⟩ := h
  cases child <;> constructor <;> simp_all [Agrees, Idle, Machine.startable]

/-- **The HUD's supervision.** At every moment of a run at most one HUD lives, one is started only
where it may be, and where it may be one runs, is stopping with a start to follow, or has its
restart armed; what follows its end is what the extension's policy plans; and once the host has
ended nothing is started until the daemon's name is reported owned again. -/
theorem hud_supervised (h : Reachable graceMs w) :
    Supervised w ∧ ∀ event w', w.next event = some w' →
      if event.isEnd && !w.refuses event then
        Follows w' (planRestart w.machine.failures w.terminated (w.uptime event))
      else w'.restart = none ∨ w'.restart = w.restart := by
  have hinv := reachable_inv h
  refine ⟨supervised hinv, fun event w' hstep => ?_⟩
  split
  · rename_i hend
    simp only [Bool.and_eq_true, Bool.not_eq_true'] at hend
    exact end_planned hinv hend.1 hend.2 hstep
  · rename_i hother
    refine restart_kept hinv ?_ hstep
    cases hend : event.isEnd with
    | false => exact .inl rfl
    | true => exact .inr (by simpa [hend] using hother)

/-- A HUD that crashes at once and is started again. -/
theorem restarted_supervised :
    ∃ w, (start 3000).run [.nameOwned, .spawned 10, .exited (some 1) 20, .restartDue] = some w ∧
      Supervised w := by
  obtain ⟨w, hw⟩ : ∃ w, (start 3000).run
      [.nameOwned, .spawned 10, .exited (some 1) 20, .restartDue] = some w := ⟨_, rfl⟩
  exact ⟨w, hw, (hud_supervised (run_reachable hw)).1⟩

/-- **What the host does not keep to.** A daemon's name that is reported owned after the host has
ended has a HUD started; a HUD that is killed lives on without a kill timer until it is reaped; and
the restarts of two lifetimes of the daemon add up past the budget without a healthy run. -/
theorem ended_killed_and_spent :
    (∃ w, (start 3000).run [.shutdown, .nameOwned] = some w ∧ w.pending = true) ∧
    (∃ w, (start 3000).run [.nameOwned, .spawned 0, .nameLost, .killDue] = some w ∧
      w.live = 1 ∧ w.terminated = true ∧ w.kill = none) ∧
    (∃ w, (start 3000).run ([.nameOwned, .spawned 0]
        ++ (List.replicate 5 [.exited (some 1) 0, .restartDue, .spawned 0]).flatten
        ++ [.nameLost, .exited (some 0) 0, .nameOwned, .spawned 0, .exited (some 1) 0, .restartDue])
        = some w ∧ RESTART_BUDGET < w.unhealthy) :=
  ⟨⟨_, rfl, by decide⟩, ⟨_, rfl, by decide, by decide, by decide⟩, ⟨_, rfl, by decide⟩⟩

end HudHost

end Config

end Myna
