import Mathlib.Algebra.BigOperators.Group.List.Basic
import Mathlib.Algebra.Order.BigOperators.Group.List
import Mathlib.Data.List.Chain
import Mathlib.Data.List.ReduceOption
import Myna.Config.ActiveBackend
import Myna.Config.ApplyPlan

/-!
# Myna — installing a snap (`myna_config::snap_install`, `myna_config::snap_changes`)

One request to snapd, whose change is followed to the end; a store error that may pass has the
whole done once more. The caller hears how much of the downloads has arrived, in percent.

* **`followChange_steady`** — the reports of one change: new each time, and never lower;
* **`install_progress`** — the reports of an install, and when it succeeds.
-/

namespace Myna

namespace Config

/-! ## `snap_changes` -/

structure TaskProgress where
  done : UInt64
  total : UInt64

structure ChangeTask where
  kind : String
  status : String
  progress : TaskProgress

/-- `ChangeInProgress`, with the fields that following a change reads. -/
structure SnapChange where
  ready : Bool
  status : String
  err : Option String := none
  tasks : List ChangeTask := []

/-- The result of a `u64` operation; none where it overflows. -/
def u64 (n : ℕ) : Option ℕ := if n < 2 ^ 64 then some n else none

/-- A `u128` quotient; none where a product overflows or the divisor is zero. -/
def u128Div (n d : ℕ) : Option ℕ := if n < 2 ^ 128 ∧ d ≠ 0 then some (n / d) else none

namespace ChangeTask

def sized (task : ChangeTask) : Bool :=
  "download-".toList.isPrefixOf task.kind.toList && 1 < task.progress.total

def doing (task : ChangeTask) : Bool := task.status = "Doing"

/-- How much of a task has arrived, and how much it announces. -/
def sizes (task : ChangeTask) : ℕ × ℕ :=
  (min task.progress.done.toNat task.progress.total.toNat, task.progress.total.toNat)

/-- A step of the fold over the sized tasks. -/
def addTo (sum : Option (ℕ × ℕ)) (task : ChangeTask) : Option (Option (ℕ × ℕ)) := do
  let (done, total) := sum.getD (0, 0)
  let done ← u64 (done + task.sizes.1)
  let total ← u64 (total + task.sizes.2)
  return some (done, total)

end ChangeTask

namespace SnapChange

def sizedTasks (change : SnapChange) : List ChangeTask := change.tasks.filter ChangeTask.sized

/-- A sized download runs. -/
def downloading (change : SnapChange) : Bool := change.sizedTasks.any ChangeTask.doing

/-- `download_percent`; none where its arithmetic overflows or divides by zero. -/
def downloadPercent (change : SnapChange) (expectedBytes : UInt64) : Option (Option ℕ) :=
  if change.downloading then do
    match ← change.sizedTasks.foldlM ChangeTask.addTo none with
    | none => return none
    | some (done, total) =>
      let percent ← u128Div (done * 100) (max total expectedBytes.toNat)
      return some (min percent 100)
  else return none

def doneBytes (change : SnapChange) : ℕ := (change.sizedTasks.map (·.sizes.1)).sum

def totalBytes (change : SnapChange) : ℕ := (change.sizedTasks.map (·.sizes.2)).sum

end SnapChange

/-! ## `snap_install` -/

def INSTALL_CHANNEL : String := "latest/edge"

def installRequest (snap : String) : String :=
  "POST /v2/snaps/" ++ snap ++ " (install, " ++ INSTALL_CHANNEL ++ ")"

def UNREADABLE_READS : ℕ := 10

inductive ChangeFailure
  | cancelled
  | failed (message : String)
  | unreadable (message : String)
deriving DecidableEq

/-- What the loop sees each time round: whether it has been cancelled, and the change as read. -/
structure ChangeRead where
  cancelled : Bool := false
  answer : Except String SnapChange

/-- How far a run has come: it goes on, it has returned, or its arithmetic has failed. -/
inductive Verdict (ε : Type)
  | following
  | returned (result : Except ε Unit)
  | panicked
deriving DecidableEq

/-- `follow_change`'s variables, and what it has reported. -/
structure Following where
  shown : Option ℕ := none
  highest : ℕ := 0
  unreadable : ℕ := 0
  reported : List (Option ℕ) := []

def resultOfReady (change : SnapChange) : Except ChangeFailure Unit :=
  match change.err, change.status with
  | some err, _ => .error (.failed err)
  | none, "Done" => .ok ()
  | none, status => .error (.failed ("snapd ended the change as " ++ status))

namespace Following

/-- What the loop does with a percentage. -/
def hear (s : Following) (percent : Option ℕ) : Following :=
  let percent := percent.map (max · s.highest)
  let s := { s with highest := percent.getD s.highest }
  if percent ≠ s.shown then { s with shown := percent, reported := s.reported ++ [percent] } else s

def once (s : Following) (expectedBytes : UInt64) (read : ChangeRead) :
    Following × Verdict ChangeFailure :=
  if read.cancelled then (s, .returned (.error .cancelled))
  else
    match read.answer with
    | .error message =>
      let s := { s with unreadable := s.unreadable + 1 }
      if s.unreadable = UNREADABLE_READS then (s, .returned (.error (.unreadable message)))
      else (s, .following)
    | .ok change =>
      let s := { s with unreadable := 0 }
      if change.ready then (s, .returned (resultOfReady change))
      else
        match change.downloadPercent expectedBytes with
        | none => (s, .panicked)
        | some percent => (s.hear percent, .following)

end Following

/-- `follow_change`, as far as its reads go. -/
def followChange (expectedBytes : UInt64) :
    Following → List ChangeRead → Following × Verdict ChangeFailure
  | s, [] => (s, .following)
  | s, read :: reads =>
    match s.once expectedBytes read with
    | (s, .following) => followChange expectedBytes s reads
    | ended => ended

/-- What snapd answers to an install: what it started, and the reads of its change. -/
structure Attempt where
  started : Except SystemConfiguratorError (Option String)
  reads : List ChangeRead := []

def ChangeFailure.toError (snap changeId : String) : ChangeFailure → SystemConfiguratorError
  | .cancelled => .cancelled
  | .failed message => .snapdExecution (installRequest snap) (some 202) message
  | .unreadable message => .snapdExecution ("GET /v2/changes/" ++ changeId) none message

/-- How a followed change ends the install. -/
def Verdict.installed (snap changeId : String) :
    Verdict ChangeFailure → Verdict SystemConfiguratorError
  | .following => .following
  | .returned (.ok ()) => .returned (.ok ())
  | .returned (.error failure) => .returned (.error (failure.toError snap changeId))
  | .panicked => .panicked

def installOnce (snap : String) (expectedBytes : UInt64) (attempt : Attempt) :
    List (Option ℕ) × Verdict SystemConfiguratorError :=
  match attempt.started with
  | .error error => ([], .returned (.error error))
  | .ok none => ([], .returned (.ok ()))
  | .ok (some changeId) =>
    let (s, verdict) := followChange expectedBytes {} attempt.reads
    (s.reported, verdict.installed snap changeId)

/-- `store_error`. -/
def installError : Except SystemConfiguratorError Unit → Option StoreError
  | .error (.execution _ message) => StoreError.find message
  | _ => none

/-- An install so far: what it has reported and written to stderr. -/
structure Install where
  reported : List (Option ℕ)
  stderr : List String := []
  verdict : Verdict SystemConfiguratorError

/-- The error of an outcome after which the install is tried once more. -/
def retryOf : Verdict SystemConfiguratorError → Option StoreError
  | .returned outcome => (installError outcome).filter StoreError.transient
  | _ => none

/-- What the second attempt's outcome adds to stderr. -/
def givenUp (snap : String) : Verdict SystemConfiguratorError → List String
  | .returned outcome => ((installError outcome).map (·.evidence snap false)).toList
  | _ => []

def install (snap : String) (expectedBytes : UInt64) (first second : Attempt) : Install :=
  let (reported, verdict) := installOnce snap expectedBytes first
  match retryOf verdict with
  | none => { reported, verdict }
  | some error =>
    let (again, verdict) := installOnce snap expectedBytes second
    { reported := reported ++ again
      stderr := error.evidence snap true :: givenUp snap verdict
      verdict }

/-! ## The percentage -/

/-- What has arrived is at most what is announced, so the announced sum overflows first. -/
theorem ChangeTask.addTo_eq (sum : Option (ℕ × ℕ)) (task : ChangeTask)
    (hsum : (sum.getD (0, 0)).1 ≤ (sum.getD (0, 0)).2) :
    task.addTo sum =
      if (sum.getD (0, 0)).2 + task.sizes.2 < 2 ^ 64 then
        some (some ((sum.getD (0, 0)).1 + task.sizes.1, (sum.getD (0, 0)).2 + task.sizes.2))
      else none := by
  have hsizes : task.sizes.1 ≤ task.sizes.2 := min_le_right _ _
  unfold addTo u64
  by_cases htotal : (sum.getD (0, 0)).2 + task.sizes.2 < 2 ^ 64
  · have hdone : (sum.getD (0, 0)).1 + task.sizes.1 < 2 ^ 64 := by omega
    simp only [hdone, htotal, if_true, Option.bind_eq_bind, Option.bind_some, Option.pure_def]
  · by_cases hdone : (sum.getD (0, 0)).1 + task.sizes.1 < 2 ^ 64 <;>
      simp only [hdone, htotal, if_true, if_false, Option.bind_eq_bind, Option.bind_some,
        Option.bind_none]

theorem foldlM_addTo (tasks : List ChangeTask) {done total : ℕ} (hle : done ≤ total)
    (hfits : total < 2 ^ 64) :
    tasks.foldlM ChangeTask.addTo (some (done, total)) =
      if total + (tasks.map (·.sizes.2)).sum < 2 ^ 64 then
        some (some (done + (tasks.map (·.sizes.1)).sum, total + (tasks.map (·.sizes.2)).sum))
      else none := by
  induction tasks generalizing done total with
  | nil => simpa using hfits
  | cons task tasks ih =>
    have hsizes : task.sizes.1 ≤ task.sizes.2 := min_le_right _ _
    rw [List.foldlM_cons, ChangeTask.addTo_eq (some (done, total)) task hle, List.map_cons,
      List.sum_cons, List.map_cons, List.sum_cons, ← Nat.add_assoc, ← Nat.add_assoc]
    by_cases hnext : total + task.sizes.2 < 2 ^ 64
    · simp only [Option.getD_some, hnext, if_true, Option.bind_eq_bind, Option.bind_some]
      exact ih (by omega) hnext
    · have hsum : ¬total + task.sizes.2 + (tasks.map (·.sizes.2)).sum < 2 ^ 64 := by omega
      simp only [Option.getD_some, hnext, hsum, if_false, Option.bind_eq_bind, Option.bind_none]

theorem foldlM_addTo_none {tasks : List ChangeTask} (hne : tasks ≠ []) :
    tasks.foldlM ChangeTask.addTo none = tasks.foldlM ChangeTask.addTo (some (0, 0)) := by
  cases tasks with
  | nil => exact absurd rfl hne
  | cons task tasks => rfl

theorem SnapChange.sizedTasks_ne_nil {change : SnapChange} (h : change.downloading = true) :
    change.sizedTasks ≠ [] := by
  rintro hnil
  rw [SnapChange.downloading, hnil] at h
  cases h

theorem SnapChange.doneBytes_le (change : SnapChange) : change.doneBytes ≤ change.totalBytes :=
  List.sum_le_sum fun _ _ => min_le_right _ _

/-- What a running download announces is more than a byte. -/
theorem SnapChange.totalBytes_pos {change : SnapChange} (h : change.downloading = true) :
    0 < change.totalBytes := by
  obtain ⟨task, htask, -⟩ := List.any_eq_true.mp h
  have hsized := (List.mem_filter.mp htask).2
  have htotal : 1 < task.progress.total := by
    simp only [ChangeTask.sized, Bool.and_eq_true, decide_eq_true_eq] at hsized
    exact hsized.2
  have hmem : task.sizes.2 ∈ change.sizedTasks.map (·.sizes.2) := List.mem_map_of_mem htask
  have hle : task.sizes.2 ≤ change.totalBytes :=
    List.single_le_sum (fun _ _ => Nat.zero_le _) _ hmem
  have hone : 1 < task.sizes.2 := UInt64.lt_iff_toNat_lt.mp htotal
  omega

theorem SnapChange.downloadPercent_idle {change : SnapChange} (h : change.downloading = false)
    (expectedBytes : UInt64) : change.downloadPercent expectedBytes = some none := by
  simp [downloadPercent, h]

theorem SnapChange.downloadPercent_eq {change : SnapChange} (h : change.downloading = true)
    (expectedBytes : UInt64) :
    change.downloadPercent expectedBytes =
      if change.totalBytes < 2 ^ 64 then
        some (some (min (change.doneBytes * 100 / max change.totalBytes expectedBytes.toNat) 100))
      else none := by
  have hdone := change.doneBytes_le
  have hpos := totalBytes_pos h
  have hfold : change.sizedTasks.foldlM ChangeTask.addTo none =
      if change.totalBytes < 2 ^ 64 then some (some (change.doneBytes, change.totalBytes))
      else none := by
    rw [foldlM_addTo_none (sizedTasks_ne_nil h),
      foldlM_addTo _ (Nat.le_refl 0) (Nat.two_pow_pos 64), Nat.zero_add, Nat.zero_add]
    rfl
  simp only [downloadPercent, h, if_true, hfold]
  by_cases hfits : change.totalBytes < 2 ^ 64
  · have hdiv : change.doneBytes * 100 < 2 ^ 128 ∧
        max change.totalBytes expectedBytes.toNat ≠ 0 := by
      omega
    simp only [hfits, if_true, Option.bind_eq_bind, Option.bind_some, u128Div, if_pos hdiv,
      Option.pure_def]
  · simp only [hfits, if_false, Option.bind_eq_bind, Option.bind_none]

theorem SnapChange.downloadPercent_le {change : SnapChange} {expectedBytes : UInt64} {percent : ℕ}
    (h : change.downloadPercent expectedBytes = some (some percent)) : percent ≤ 100 := by
  cases hdown : change.downloading with
  | false => simp [downloadPercent_idle hdown] at h
  | true =>
    rw [downloadPercent_eq hdown] at h
    split_ifs at h with hfits
    obtain rfl : _ = percent := Option.some.inj (Option.some.inj h)
    exact min_le_right _ _

theorem SnapChange.downloadPercent_none {change : SnapChange} {expectedBytes : UInt64}
    (h : change.downloadPercent expectedBytes = some none) : change.downloading = false := by
  cases hdown : change.downloading with
  | false => rfl
  | true =>
    rw [downloadPercent_eq hdown] at h
    split_ifs at h with hfits
    cases h

/-- Only what is announced can overflow. -/
theorem SnapChange.downloadPercent_panics {change : SnapChange} {expectedBytes : UInt64} :
    change.downloadPercent expectedBytes = none ↔
      change.downloading = true ∧ 2 ^ 64 ≤ change.totalBytes := by
  cases hdown : change.downloading with
  | false => simp [downloadPercent_idle hdown]
  | true =>
    rw [downloadPercent_eq hdown]
    split_ifs with hfits <;> simp <;> omega

/-! ## The reports of one change -/

/-- What holds of the loop's variables at its head. -/
structure Following.Steady (s : Following) : Prop where
  percent_le : ∀ percent, some percent ∈ s.reported → percent ≤ s.highest
  highest_le : s.highest ≤ 100
  last : ∀ percent ∈ s.reported.getLast?, percent = s.shown
  differ : s.reported.IsChain (· ≠ ·)
  rises : s.reported.reduceOption.Pairwise (· ≤ ·)

theorem Following.steady_start : Following.Steady {} where
  percent_le := by simp
  highest_le := Nat.zero_le _
  last := by simp
  differ := .nil
  rises := .nil

/-- Where the variables but not the reports change. -/
theorem Following.Steady.congr {s t : Following} (h : s.Steady)
    (hreported : t.reported = s.reported) (hshown : t.shown = s.shown)
    (hle : s.highest ≤ t.highest) (hhighest : t.highest ≤ 100) :
    t.Steady where
  percent_le := fun percent hmem => (h.percent_le percent (hreported ▸ hmem)).trans hle
  highest_le := hhighest
  last := fun percent hmem => hshown ▸ h.last percent (hreported ▸ hmem)
  differ := hreported ▸ h.differ
  rises := hreported ▸ h.rises

theorem Following.Steady.hear {s : Following} (h : s.Steady) {percent : Option ℕ}
    (hpercent : ∀ p ∈ percent, p ≤ 100) : (s.hear percent).Steady := by
  have hle : s.highest ≤ (percent.map (max · s.highest)).getD s.highest := by
    cases percent with
    | none => exact Nat.le_refl _
    | some p => exact le_max_right _ _
  have hhighest : (percent.map (max · s.highest)).getD s.highest ≤ 100 := by
    cases percent with
    | none => exact h.highest_le
    | some p => exact max_le (hpercent p rfl) h.highest_le
  unfold Following.hear
  dsimp only
  split_ifs with hshown
  · refine ⟨?_, hhighest, ?_, ?_, ?_⟩
    · intro p hp
      rcases List.mem_append.mp hp with hp | hp
      · exact (h.percent_le p hp).trans hle
      · rw [List.mem_singleton] at hp
        rw [← hp]
        exact Nat.le_refl _
    · intro p hp
      rw [List.getLast?_concat] at hp
      exact (Option.some.inj hp).symm
    · refine List.isChain_append.mpr ⟨h.differ, .singleton _, ?_⟩
      intro x hx y hy
      obtain rfl : _ = y := Option.some.inj hy
      rw [h.last x hx]
      exact hshown ∘ Eq.symm
    · rw [List.reduceOption_append, List.pairwise_append]
      refine ⟨h.rises, ?_, ?_⟩
      · cases percent <;> simp [List.reduceOption]
      · intro x hx y hy
        have hy' : some y = percent.map (max · s.highest) :=
          List.mem_singleton.mp (List.reduceOption_mem_iff.mp hy)
        rw [← hy'] at hle
        exact (h.percent_le x (List.reduceOption_mem_iff.mp hx)).trans hle
  · exact h.congr rfl rfl hle hhighest

theorem Following.Steady.once {s : Following} (h : s.Steady) (expectedBytes : UInt64)
    (read : ChangeRead) : (s.once expectedBytes read).1.Steady := by
  have hsame : ∀ unreadable, Following.Steady { s with unreadable := unreadable } := fun _ =>
    h.congr rfl rfl (Nat.le_refl _) h.highest_le
  unfold Following.once
  dsimp only
  by_cases hcancelled : read.cancelled = true
  · rw [if_pos hcancelled]
    exact h
  · rw [if_neg hcancelled]
    cases read.answer with
    | error message =>
      dsimp only
      split_ifs <;> exact hsame _
    | ok change =>
      dsimp only
      split_ifs with hready
      · exact hsame 0
      · cases hpercent : change.downloadPercent expectedBytes with
        | none => exact hsame 0
        | some percent =>
          refine (hsame 0).hear fun p hp => ?_
          obtain rfl : percent = some p := hp
          exact change.downloadPercent_le hpercent

theorem followChange_steady (expectedBytes : UInt64) {s : Following} (h : s.Steady)
    (reads : List ChangeRead) : (followChange expectedBytes s reads).1.Steady := by
  induction reads generalizing s with
  | nil => exact h
  | cons read reads ih =>
    have hnext := h.once expectedBytes read
    rw [followChange]
    split
    · rename_i next hstep
      rw [hstep] at hnext
      exact ih hnext
    · exact hnext

/-! ## How a change's following ends -/

theorem followChange_append {expectedBytes : UInt64} {s t : Following} {before : List ChangeRead}
    (h : followChange expectedBytes s before = (t, .following)) (after : List ChangeRead) :
    followChange expectedBytes s (before ++ after) = followChange expectedBytes t after := by
  induction before generalizing s with
  | nil =>
    obtain rfl : s = t := congrArg Prod.fst h
    rfl
  | cons read before ih =>
    rw [List.cons_append, followChange]
    rw [followChange] at h
    split at h
    · exact ih h
    · rename_i hended
      exact absurd h (hended t)

/-- What a report of no percentage says of the change it is about. -/
theorem Following.once_reports_none {s : Following} {expectedBytes : UInt64} {read : ChangeRead}
    (h : (s.once expectedBytes read).1.reported = s.reported ++ [none]) :
    ∃ change, read.answer = .ok change ∧ change.downloading = false := by
  unfold Following.once at h
  dsimp only at h
  by_cases hcancelled : read.cancelled = true
  · rw [if_pos hcancelled] at h
    exact absurd h (by simp)
  · rw [if_neg hcancelled] at h
    cases hanswer : read.answer with
    | error message =>
      simp only [hanswer] at h
      split_ifs at h <;> exact absurd h (by simp)
    | ok change =>
      simp only [hanswer] at h
      split_ifs at h
      · exact absurd h (by simp)
      · cases hpercent : change.downloadPercent expectedBytes with
        | none =>
          simp only [hpercent] at h
          exact absurd h (by simp)
        | some percent =>
          simp only [hpercent] at h
          cases percent with
          | none => exact ⟨change, rfl, change.downloadPercent_none hpercent⟩
          | some p =>
            unfold Following.hear at h
            dsimp only at h
            split_ifs at h <;> exact absurd h (by simp)

/-- The read that ended a change's following well. -/
structure EndedWell (change : SnapChange) : Prop where
  ready : change.ready = true
  err : change.err = none
  status : change.status = "Done"

theorem resultOfReady_ok {change : SnapChange} (hready : change.ready = true)
    (h : resultOfReady change = .ok ()) : EndedWell change := by
  unfold resultOfReady at h
  split at h
  · cases h
  · exact ⟨hready, ‹_›, ‹_›⟩
  · cases h

theorem Following.once_ok {s t : Following} {expectedBytes : UInt64} {read : ChangeRead}
    (h : s.once expectedBytes read = (t, .returned (.ok ()))) :
    ∃ change, read.answer = .ok change ∧ EndedWell change := by
  unfold Following.once at h
  dsimp only at h
  by_cases hcancelled : read.cancelled = true
  · rw [if_pos hcancelled] at h
    cases h
  · rw [if_neg hcancelled] at h
    cases hanswer : read.answer with
    | error message =>
      simp only [hanswer] at h
      split_ifs at h <;> cases h
    | ok change =>
      simp only [hanswer] at h
      split_ifs at h with hready
      · have hresult : resultOfReady change = .ok () := by
          have hverdict := congrArg Prod.snd h
          injection hverdict
        exact ⟨change, rfl, resultOfReady_ok hready hresult⟩
      · cases hpercent : change.downloadPercent expectedBytes <;> simp [hpercent] at h

theorem followChange_ok {expectedBytes : UInt64} {s t : Following} {reads : List ChangeRead}
    (h : followChange expectedBytes s reads = (t, .returned (.ok ()))) :
    ∃ before read after change, reads = before ++ read :: after ∧
      (followChange expectedBytes s before).2 = .following ∧ read.answer = .ok change ∧
      EndedWell change := by
  induction reads generalizing s with
  | nil => cases h
  | cons read reads ih =>
    rw [followChange] at h
    split at h
    · rename_i next hstep
      obtain ⟨before, last, after, change, rfl, hbefore, hanswer, hended⟩ := ih h
      refine ⟨read :: before, last, after, change, rfl, ?_, hanswer, hended⟩
      rw [followChange, hstep]
      exact hbefore
    · obtain ⟨change, hanswer, hended⟩ := Following.once_ok h
      exact ⟨[], read, reads, change, rfl, rfl, hanswer, hended⟩

/-! ## The reports of an install -/

/-- A report of no percentage is about a change none of whose sized downloads runs. -/
def ReportsIdle (expectedBytes : UInt64) (reads : List ChangeRead) : Prop :=
  ∀ before read after, reads = before ++ read :: after →
    (followChange expectedBytes {} before).2 = .following →
    (followChange expectedBytes {} (before ++ [read])).1.reported =
      (followChange expectedBytes {} before).1.reported ++ [none] →
    ∃ change, read.answer = .ok change ∧ change.downloading = false

/-- The reports of one followed change. -/
structure Reports (expectedBytes : UInt64) (attempt : Attempt) (reported : List (Option ℕ)) :
    Prop where
  percent_le : ∀ percent, some percent ∈ reported → percent ≤ 100
  differ : reported.IsChain (· ≠ ·)
  rises : reported.reduceOption.Pairwise (· ≤ ·)
  idle : ReportsIdle expectedBytes attempt.reads

/-- An attempt found the snap installed, or the last read of its change was of one that is done. -/
def Succeeded (expectedBytes : UInt64) (attempt : Attempt) : Prop :=
  attempt.started = .ok none ∨
    ∃ changeId before read after change, attempt.started = .ok (some changeId) ∧
      attempt.reads = before ++ read :: after ∧
      (followChange expectedBytes {} before).2 = .following ∧ read.answer = .ok change ∧
      EndedWell change

theorem followChange_singleton (expectedBytes : UInt64) (s : Following) (read : ChangeRead) :
    followChange expectedBytes s [read] = s.once expectedBytes read := by
  rw [followChange]
  split
  · rename_i next hstep
    exact hstep.symm
  · rfl

theorem reportsIdle (expectedBytes : UInt64) (reads : List ChangeRead) :
    ReportsIdle expectedBytes reads := by
  intro before read after _ hfollowing hreport
  rw [followChange_append (Prod.ext rfl hfollowing), followChange_singleton] at hreport
  exact Following.once_reports_none hreport

theorem installOnce_reports (snap : String) (expectedBytes : UInt64) (attempt : Attempt) :
    Reports expectedBytes attempt (installOnce snap expectedBytes attempt).1 := by
  have hidle := reportsIdle expectedBytes attempt.reads
  have hnil : Reports expectedBytes attempt [] := ⟨by simp, .nil, .nil, hidle⟩
  unfold installOnce
  split
  · exact hnil
  · exact hnil
  · have hsteady := followChange_steady expectedBytes Following.steady_start attempt.reads
    exact ⟨fun percent hmem => (hsteady.percent_le percent hmem).trans hsteady.highest_le,
      hsteady.differ, hsteady.rises, hidle⟩

theorem installOnce_ok {snap : String} {expectedBytes : UInt64} {attempt : Attempt}
    (h : (installOnce snap expectedBytes attempt).2 = .returned (.ok ())) :
    Succeeded expectedBytes attempt := by
  unfold installOnce at h
  split at h
  · cases h
  · exact .inl ‹_›
  · rename_i changeId hstarted
    dsimp only at h
    cases hrun : followChange expectedBytes {} attempt.reads with
    | mk s verdict =>
      rw [hrun] at h
      have hverdict : verdict = .returned (.ok ()) := by
        cases verdict with
        | following => cases h
        | panicked => cases h
        | returned result =>
          cases result with
          | ok => rfl
          | error failure => cases h
      rw [hverdict] at hrun
      obtain ⟨before, read, after, change, hreads, hbefore, hanswer, hended⟩ := followChange_ok hrun
      exact .inr ⟨changeId, before, read, after, change, hstarted, hreads, hbefore, hanswer, hended⟩

/-- An install that succeeded at once is not tried again. -/
theorem retryOf_ok : retryOf (.returned (.ok ())) = none := rfl

theorem install_reported (snap : String) (expectedBytes : UInt64) (first second : Attempt) :
    ∃ earlier later, (install snap expectedBytes first second).reported = earlier ++ later ∧
      Reports expectedBytes first earlier ∧ Reports expectedBytes second later ∧
      (later ≠ [] → retryOf (installOnce snap expectedBytes first).2 ≠ none) := by
  refine ⟨(installOnce snap expectedBytes first).1,
    match retryOf (installOnce snap expectedBytes first).2 with
    | none => []
    | some _ => (installOnce snap expectedBytes second).1, ?_,
    installOnce_reports snap expectedBytes first, ?_, ?_⟩
  · unfold install
    dsimp only
    cases retryOf (installOnce snap expectedBytes first).2 with
    | none => exact (List.append_nil _).symm
    | some error => rfl
  · cases retryOf (installOnce snap expectedBytes first).2 with
    | none => exact ⟨by simp, .nil, .nil, reportsIdle expectedBytes second.reads⟩
    | some error => exact installOnce_reports snap expectedBytes second
  · cases retryOf (installOnce snap expectedBytes first).2 with
    | none => exact fun hne => absurd rfl hne
    | some error => exact fun _ => Option.some_ne_none error

theorem install_ok {snap : String} {expectedBytes : UInt64} {first second : Attempt}
    (h : (install snap expectedBytes first second).verdict = .returned (.ok ())) :
    Succeeded expectedBytes first ∨
      retryOf (installOnce snap expectedBytes first).2 ≠ none ∧ Succeeded expectedBytes second := by
  unfold install at h
  dsimp only at h
  cases hretry : retryOf (installOnce snap expectedBytes first).2 with
  | none =>
    rw [hretry] at h
    exact .inl (installOnce_ok h)
  | some error =>
    rw [hretry] at h
    exact .inr ⟨Option.some_ne_none error, installOnce_ok h⟩

/-- The percentages of each followed change rise; the arithmetic of one fails only where what is
announced does not fit; an install succeeds where the snap was there or its change is done. -/
theorem install_progress (snap : String) (expectedBytes : UInt64) (first second : Attempt) :
    (∃ earlier later, (install snap expectedBytes first second).reported = earlier ++ later ∧
      Reports expectedBytes first earlier ∧ Reports expectedBytes second later ∧
      (later ≠ [] → retryOf (installOnce snap expectedBytes first).2 ≠ none)) ∧
    (∀ change : SnapChange, change.downloadPercent expectedBytes = none ↔
      change.downloading = true ∧ 2 ^ 64 ≤ change.totalBytes) ∧
    ((install snap expectedBytes first second).verdict = .returned (.ok ()) →
      Succeeded expectedBytes first ∨
        retryOf (installOnce snap expectedBytes first).2 ≠ none ∧
          Succeeded expectedBytes second) :=
  ⟨install_reported snap expectedBytes first second, fun _ => SnapChange.downloadPercent_panics,
    install_ok⟩

/-- A download of the snap, of 100 bytes. -/
def downloadOf (done : UInt64) : ChangeRead where
  answer := .ok ⟨false, "Doing", none, [⟨"download-snap", "Doing", ⟨done, 100⟩⟩]⟩

/-- An installed snap has no change to read; a second attempt's download starts over; two sizes near
the last `u64` overflow. -/
theorem retried_starts_over :
    (install "myna" 100 ⟨.ok none, []⟩ ⟨.ok none, []⟩).verdict = .returned (.ok ()) ∧
    (install "myna" 100
      ⟨.ok (some "12"), [downloadOf 50, ⟨false, .ok ⟨true, "Error",
        some "got unexpected HTTP status code 408 via GET to \"x\"", []⟩⟩]⟩
      ⟨.ok (some "13"), [downloadOf 10]⟩).reported = [some 50, some 10] ∧
    SnapChange.downloadPercent ⟨false, "Doing", none,
      [⟨"download-snap", "Doing", ⟨0, 18446744073709551615⟩⟩,
        ⟨"download-component", "Doing", ⟨0, 2⟩⟩]⟩ 100 = none :=
  ⟨rfl, by decide +kernel, by decide +kernel⟩

end Config

end Myna
