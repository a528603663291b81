import Mathlib.Tactic.Linarith
import Mathlib.Data.Rat.Cast.Order
import Myna.Server.LifecycleRuns

/-!
# Myna — an idle server drops its model

What the monitor has released stays free until a session begins: the loads of sessions that are over
stand before its unload, and none comes after. And it does not miss its time: an idle server is
released within one tick of the timeout.

* **`released_is_free`** — what a release leaves, and for how long;
* **`idle_is_released`** — how long an idle server has its model.
-/

namespace Myna

namespace Lifecycle

open Server

variable {s t : Server} {id : ℕ} {action : IdleAction} {timeout : ℚ}

/-! ## What a release leaves -/

/-- After a release, the line at the lock ends with the unload, or nothing is left of the model. -/
structure Freed (s : Server) : Prop where
  started : s.created = []
  free : s.monitor = .unloading ∧ s.lock.line.getLast? = some .unload ∨
    s.model = none ∧ s.lock.line = []

/-- What a release leaves, and that what has been created has started before time passes. -/
structure Rested (s : Server) : Prop where
  prompt : s.created ≠ [] → s.sessions = [] → s.last = s.now
  freed : s.released = true → s.stop = false → Freed s

/-- The head of the line leaves it, and nothing else was free. -/
theorem Freed.load_leaves (h : Freed s) (hholder : s.lock.holder = some (.load id))
    {model : Option ℕ} {built : ℕ} {sessions : List (ℕ × Phase)} :
    Freed { s with
      model := model, built := built, sessions := sessions, lock := s.lock.release } := by
  have hline := FairLock.line_release hholder
  refine ⟨h.started, .inl ?_⟩
  rcases h.free with ⟨hmonitor, hlast⟩ | ⟨-, hnil⟩
  · refine ⟨hmonitor, ?_⟩
    rw [hline] at hlast
    cases htail : s.lock.release.line with
    | nil =>
      rw [htail] at hlast
      cases hlast
    | cons job jobs =>
      rw [htail, List.getLast?_cons_cons] at hlast
      exact hlast
  · rw [hline] at hnil
    cases hnil

/-- An unload that is granted the lock was the last in the line. -/
theorem Freed.unload_leaves (hinv : Inv s) (h : Freed s) (hholder : s.lock.holder = some .unload) :
    Freed (s.granted .unload) := by
  have hline := FairLock.line_release hholder
  refine ⟨h.started, .inr ⟨rfl, ?_⟩⟩
  show s.lock.release.line = []
  rcases h.free with ⟨-, hlast⟩ | ⟨-, hnil⟩
  · have hordered := hinv.ordered
    rw [hline] at hlast hordered
    cases htail : s.lock.release.line with
    | nil => rfl
    | cons job jobs =>
      -- the last of the line is not the unload at its head
      rw [htail] at hlast hordered
      have hmem : Job.unload ∈ job :: jobs := by
        rw [List.getLast?_cons_cons] at hlast
        exact List.mem_of_getLast? hlast
      obtain ⟨other, heq, -⟩ := (List.pairwise_cons.mp hordered).1 _ hmem rfl
      cases heq
  · rw [hline] at hnil
    cases hnil

theorem Rested.granted (hinv : Inv s) (h : Rested s) {job : Job}
    (hholder : s.lock.holder = some job) : Rested (s.granted job) := by
  cases job with
  | load id =>
    unfold Server.granted
    dsimp only
    split
    · refine ⟨fun hcreated hsessions => h.prompt hcreated ?_, fun hreleased hstop => ?_⟩
      · exact List.map_eq_nil_iff.mp hsessions
      · exact (h.freed hreleased hstop).load_leaves hholder
    · exact h
  | unload =>
    exact ⟨h.prompt, fun hreleased hstop => (h.freed hreleased hstop).unload_leaves hinv hholder⟩

theorem Rested.monitorLoop (h : Rested s) (hmonitor : s.monitor ≠ .unloading) :
    Rested s.monitorLoop := by
  refine ⟨h.prompt, fun hreleased hstop => ?_⟩
  obtain ⟨hstarted, hfree⟩ := h.freed hreleased hstop
  exact ⟨hstarted, hfree.imp_left fun hunloading => absurd hunloading.1 hmonitor⟩

/-- A release comes when every load has started. -/
theorem Rested.maybeRelease (htimeout : 0 < timeout) (hinv : Inv s) (h : Rested s)
    (hmonitor : s.monitor ≠ .unloading) (hidle : timeout ≤ s.idleSeconds) :
    Rested (s.maybeRelease .unload) := by
  unfold Server.maybeRelease
  split
  · exact h.monitorLoop hmonitor
  · rename_i hunreleased
    obtain ⟨hbusy, -⟩ := not_or.mp hunreleased
    have hsessions : s.sessions = [] := by
      by_contra hne
      exact hbusy (hinv.busy_iff.mpr hne)
    have hstarted : s.created = [] := by
      by_contra hne
      have hlast := h.prompt hne hsessions
      unfold idleSeconds at hidle
      rw [if_neg hbusy, hlast, sub_self] at hidle
      exact absurd htimeout (not_lt.mpr hidle)
    have hlast : (s.lock.ask .unload).line.getLast? = some .unload := by
      rw [FairLock.line_ask, List.getLast?_concat]
    have hasked : Rested { s with
        released := true, monitor := .unloading, lock := s.lock.ask .unload } :=
      ⟨h.prompt, fun _ _ => ⟨hstarted, .inl ⟨rfl, hlast⟩⟩⟩
    show Rested (Server.request _ .unload)
    unfold Server.request
    dsimp only
    split
    · rename_i hfree
      exact hasked.granted (hinv.ask_unload hsessions hmonitor) (FairLock.holder_ask hfree)
    · exact hasked

theorem Step.rested (htimeout : 0 < timeout) (hinv : Inv s) (h : Rested s)
    (hstep : Step .unload timeout s t) : Rested t := by
  cases hstep with
  | runSession accepted =>
    refine ⟨fun _ hsessions => ?_, fun hreleased => (by cases hreleased)⟩
    cases (List.append_eq_nil_iff.mp hsessions).2
  | endSession hid =>
    refine ⟨fun _ _ => rfl, fun hreleased _ => ?_⟩
    rw [Server.ids, hinv.armed hreleased] at hid
    cases hid
  | @startLoad id hid =>
    have hasked : Rested { s with
        created := s.created.erase id, lock := s.lock.ask (.load id) } := by
      refine ⟨fun hcreated => h.prompt fun hnil => hcreated ?_, fun hreleased hstop => ?_⟩
      · rw [hnil]
        rfl
      · rw [(h.freed hreleased hstop).started] at hid
        cases hid
    show Rested (Server.request _ _)
    unfold Server.request
    dsimp only
    split
    · rename_i hfree
      exact hasked.granted (hinv.ask_load hid) (FairLock.holder_ask hfree)
    · exact hasked
  | @take job lock htake =>
    obtain ⟨hline, hholder, -⟩ := FairLock.line_take htake
    have hrelocked : Rested { s with lock := lock } := by
      refine ⟨h.prompt, fun hreleased hstop => ?_⟩
      obtain ⟨hstarted, hfree⟩ := h.freed hreleased hstop
      refine ⟨hstarted, ?_⟩
      rw [hline]
      exact hfree
    exact hrelocked.granted (hinv.relock hline) hholder
  | loadBuilt hholder =>
    refine ⟨fun hcreated hsessions => h.prompt hcreated (List.map_eq_nil_iff.mp hsessions), ?_⟩
    exact fun hreleased hstop => (h.freed hreleased hstop).load_leaves hholder
  | loadFailed hholder =>
    refine ⟨fun hcreated hsessions => h.prompt hcreated (List.map_eq_nil_iff.mp hsessions), ?_⟩
    exact fun hreleased hstop => (h.freed hreleased hstop).load_leaves hholder
  | wake hasleep hdue =>
    have hmonitor : s.monitor ≠ .unloading := by
      rw [hasleep]
      exact fun heq => by cases heq
    unfold Server.wake
    split
    · rename_i hstop
      refine ⟨h.prompt, fun _ hstop' => ?_⟩
      cases hstop.symm.trans hstop'
    · split
      · rename_i hidle
        exact h.maybeRelease htimeout hinv hmonitor hidle.2
      · exact h.monitorLoop hmonitor
  | trimDone htrimming =>
    have hmonitor : s.monitor ≠ .unloading := by
      rw [htrimming]
      exact fun heq => by cases heq
    have htrimmed : Rested { s with trimmed := s.now } := by
      refine ⟨h.prompt, fun hreleased hstop => ?_⟩
      exact { h.freed hreleased hstop with }
    exact htrimmed.monitorLoop hmonitor
  | signal => exact ⟨h.prompt, fun _ hstop => by cases hstop⟩
  | cancelMonitor hstop => exact ⟨h.prompt, fun _ hstop' => by cases hstop.symm.trans hstop'⟩
  | elapse hd hstarted hdue =>
    refine ⟨fun hcreated => absurd hstarted hcreated, fun hreleased hstop => ?_⟩
    exact { h.freed hreleased hstop with }

theorem serving_rested (preload : Bool) : Rested (serving preload) := by
  cases preload <;> exact ⟨fun hcreated => absurd rfl hcreated, fun hreleased => by cases hreleased⟩

/-- **What was released stays free until a session begins.** Once an idle server has released its
model, no session is there, and unless the monitor still waits for a load that outlives its session,
the model is gone, nobody has the lock or waits for it, and no load is to start. -/
theorem released_is_free (htimeout : 0 < timeout) {preload : Bool}
    (h : StepSystem.Reachable (Step .unload timeout) (serving preload) s)
    (hreleased : s.released = true) (hstop : s.stop = false) :
    s.sessions = [] ∧ s.created = [] ∧
      (s.monitor = .unloading ∧ s.lock.line.getLast? = some .unload ∨
        s.model = none ∧ s.lock.line = []) := by
  obtain ⟨⟨hinv, -⟩, hrested⟩ := StepSystem.reachable_induction
    (I := fun s => (Inv s ∧ Building s) ∧ Rested s) h ⟨serving_inv preload, serving_rested preload⟩
    fun _ _ hboth hstep => ⟨hstep.inv hboth.1, hstep.rested htimeout hboth.1.1 hboth.2⟩
  obtain ⟨hstarted, hfree⟩ := hrested.freed hreleased hstop
  exact ⟨hinv.armed hreleased, hstarted, hfree⟩

/-- The monitor of `orphaned` has released the model, and waits for the load. -/
def released : Server := orphaned.wake .unload 1

theorem released_reachable : StepSystem.Reachable (Step .unload 1) (serving false) released := by
  refine .tail orphaned_reachable (@Step.wake _ _ _ 0 ?_ ?_)
  all_goals decide +kernel

theorem released_waits : released.sessions = [] ∧ released.created = [] ∧
    (released.monitor = .unloading ∧ released.lock.line.getLast? = some .unload ∨
      released.model = none ∧ released.lock.line = []) :=
  released_is_free (by decide +kernel) released_reachable (by decide +kernel) (by decide +kernel)

/-! ## When an idle server is released -/

theorem tick_pos : 0 < tick timeout :=
  lt_of_lt_of_le (by norm_num) (le_max_left _ _)

/-- Where the monitor stands in time. -/
structure Timed (timeout : ℚ) (s : Server) : Prop where
  past : s.last ≤ s.now ∧ s.trimmed ≤ s.now
  returned : s.monitor = .returned → s.stop = true
  asleep : ∀ since, s.monitor = .asleep since → since ≤ s.now ∧ s.now ≤ since + tick timeout ∧
    (s.busy = false → s.released = false → s.stop = false →
      since < s.last + timeout ∨ since ≤ s.trimmed)

theorem Timed.monitorLoop (h : Timed timeout s)
    (hidle : s.busy = false → s.released = false → s.stop = false →
      s.now < s.last + timeout ∨ s.now ≤ s.trimmed) : Timed timeout s.monitorLoop := by
  refine ⟨h.past, fun hreturned => ?_, fun since hasleep => ?_⟩
  · show s.stop = true
    by_contra hstop
    unfold Server.monitorLoop at hreturned
    dsimp only at hreturned
    rw [if_neg hstop] at hreturned
    cases hreturned
  · unfold Server.monitorLoop at hasleep
    dsimp only at hasleep
    split at hasleep
    · cases hasleep
    · obtain rfl := Monitor.asleep.inj hasleep
      refine ⟨le_refl _, ?_, hidle⟩
      exact le_add_of_nonneg_right tick_pos.le

/-- Only what is no matter of time changes. -/
theorem Timed.granted (h : Timed timeout s) (job : Job) : Timed timeout (s.granted job) := by
  cases job with
  | load id =>
    unfold Server.granted
    dsimp only
    split
    · exact ⟨h.past, h.returned, h.asleep⟩
    · exact h
  | unload => exact ⟨h.past, fun heq => (by cases heq), fun since heq => by cases heq⟩

theorem Timed.request (h : Timed timeout s) (job : Job) : Timed timeout (s.request job) := by
  have hasked : Timed timeout { s with lock := s.lock.ask job } := ⟨h.past, h.returned, h.asleep⟩
  unfold Server.request
  dsimp only
  split
  · exact hasked.granted job
  · exact hasked

theorem Timed.maybeRelease (h : Timed timeout s) (hbusy : s.busy = false) :
    Timed timeout (s.maybeRelease action) := by
  unfold Server.maybeRelease
  split
  · rename_i hreleased
    rw [hbusy, Bool.false_eq_true, false_or] at hreleased
    refine h.monitorLoop fun _ hunreleased => ?_
    cases hreleased.symm.trans hunreleased
  · cases action with
    | exit =>
      have hstop : Timed timeout { s with released := true, stop := true } :=
        ⟨h.past, fun _ => rfl, fun since hasleep =>
          ⟨(h.asleep since hasleep).1, (h.asleep since hasleep).2.1, fun _ heq => by cases heq⟩⟩
      exact hstop.monitorLoop fun _ heq => by cases heq
    | unload =>
      have hunloading : Timed timeout { s with released := true, monitor := .unloading } :=
        ⟨h.past, fun heq => (by cases heq), fun since heq => by cases heq⟩
      exact hunloading.request .unload

theorem Step.timed (htimeout : 0 < timeout) (h : Timed timeout s)
    (hstep : Step action timeout s t) : Timed timeout t := by
  cases hstep with
  | runSession accepted =>
    refine ⟨h.past, h.returned, fun since hasleep => ?_⟩
    obtain ⟨hsince, hdue, -⟩ := h.asleep since hasleep
    refine ⟨hsince, hdue, fun hbusy => ?_⟩
    have hbusy : decide (0 < s.active + 1) = false := hbusy
    rw [decide_eq_true (Nat.succ_pos _)] at hbusy
    cases hbusy
  | endSession hid =>
    refine ⟨⟨le_refl _, h.past.2⟩, h.returned, fun since hasleep => ?_⟩
    obtain ⟨hsince, hdue, -⟩ := h.asleep since hasleep
    exact ⟨hsince, hdue, fun _ _ _ => .inl (lt_add_of_le_of_pos hsince htimeout)⟩
  | @startLoad id hid =>
    have hstarted : Timed timeout { s with created := s.created.erase id } :=
      ⟨h.past, h.returned, h.asleep⟩
    exact hstarted.request _
  | @take job lock htake =>
    have hrelocked : Timed timeout { s with lock := lock } := ⟨h.past, h.returned, h.asleep⟩
    exact hrelocked.granted _
  | loadBuilt hholder => exact ⟨h.past, h.returned, h.asleep⟩
  | loadFailed hholder => exact ⟨h.past, h.returned, h.asleep⟩
  | wake hasleep hdue =>
    unfold Server.wake
    split
    · rename_i hstop
      exact ⟨h.past, fun _ => hstop, fun since heq => by cases heq⟩
    · split
      · rename_i hidle
        exact h.maybeRelease (Bool.eq_false_iff.mpr hidle.1)
      · rename_i hidle
        refine h.monitorLoop fun hbusy _ _ => .inl ?_
        have hshort : s.idleSeconds < timeout := by
          by_contra hlong
          exact hidle ⟨by rw [hbusy]; exact Bool.false_ne_true, not_lt.mp hlong⟩
        unfold idleSeconds at hshort
        rw [hbusy, if_neg Bool.false_ne_true] at hshort
        linarith
  | trimDone htrimming =>
    have htrimmed : Timed timeout { s with trimmed := s.now } := by
      refine ⟨⟨h.past.1, le_refl _⟩, h.returned, fun since hasleep => ?_⟩
      cases htrimming.symm.trans hasleep
    exact htrimmed.monitorLoop fun _ _ _ => .inr (le_refl _)
  | signal =>
    refine ⟨h.past, fun _ => rfl, fun since hasleep => ?_⟩
    obtain ⟨hsince, hdue, -⟩ := h.asleep since hasleep
    exact ⟨hsince, hdue, fun _ _ heq => by cases heq⟩
  | cancelMonitor hstop => exact ⟨h.past, fun _ => hstop, fun since heq => by cases heq⟩
  | @elapse d hd hstarted hdue =>
    refine ⟨⟨h.past.1.trans ?_, h.past.2.trans ?_⟩, h.returned, fun since hasleep => ?_⟩
    · exact le_add_of_nonneg_right hd
    · exact le_add_of_nonneg_right hd
    · obtain ⟨hsince, -, hidle⟩ := h.asleep since hasleep
      exact ⟨hsince.trans (le_add_of_nonneg_right hd), hdue since hasleep, hidle⟩

theorem serving_timed (preload : Bool) : Timed timeout (serving preload) := by
  have hasleep : ∀ since, Monitor.asleep 0 = .asleep since → since ≤ 0 ∧ 0 ≤ since + tick timeout ∧
      (false = false → false = false → false = false → since < 0 + timeout ∨ since ≤ 0) := by
    intro since heq
    obtain rfl := Monitor.asleep.inj heq
    exact ⟨le_refl _, by rw [zero_add]; exact tick_pos.le, fun _ _ _ => .inr (le_refl _)⟩
  cases preload
  · exact ⟨⟨le_refl _, le_refl _⟩, fun heq => (by cases heq), hasleep⟩
  · exact ⟨⟨le_refl _, le_refl _⟩, fun heq => (by cases heq), hasleep⟩

/-- **An idle server is released in time.** While no session is there and nothing has been released,
no more time passes than the timeout and one tick, counted from the end of the last session or from
the end of the unload that the monitor was still at. -/
theorem idle_is_released (htimeout : 0 < timeout) {preload : Bool}
    (h : StepSystem.Reachable (Step action timeout) (serving preload) s)
    (hbusy : s.busy = false) (hreleased : s.released = false) (hstop : s.stop = false) :
    s.monitor = .unloading ∨ s.monitor = .trimming ∨
      s.now ≤ max (s.last + timeout) s.trimmed + tick timeout := by
  have htimed := StepSystem.reachable_induction (I := Timed timeout) h
    (serving_timed preload) fun _ _ htimed hstep => hstep.timed htimeout htimed
  cases hmonitor : s.monitor with
  | unloading => exact .inl rfl
  | trimming => exact .inr (.inl rfl)
  | returned => cases (htimed.returned hmonitor).symm.trans hstop
  | asleep since =>
    obtain ⟨-, hdue, hidle⟩ := htimed.asleep since hmonitor
    refine .inr (.inr ?_)
    rcases hidle hbusy hreleased hstop with hlast | htrimmed
    · have hle := le_max_left (s.last + timeout) s.trimmed
      linarith
    · have hle := le_max_right (s.last + timeout) s.trimmed
      linarith

theorem orphaned_in_time : orphaned.monitor = .unloading ∨ orphaned.monitor = .trimming ∨
    orphaned.now ≤ max (orphaned.last + 1) orphaned.trimmed + tick 1 :=
  idle_is_released (by decide +kernel) orphaned_reachable (by decide +kernel) (by decide +kernel)
    (by decide +kernel)

end Lifecycle

end Myna
