import Myna.Lib.StepSystem
import Myna.Server.Lifecycle

/-!
# Myna — a session keeps the model it loaded

The monitor asks for the lock while no session is there, and the lock is fair. So a load that stands
before the monitor's unload is of a session that is over, and a session that comes later loads the
model after it was dropped.

* **`Inv`** — what the line at the lock says of the sessions;
* **`model_is_kept`** — whoever has loaded the model finds it until the end.
-/

namespace Myna

namespace Lifecycle

open Server

/-- What stands before an unload is a load of a session that is over. -/
def Over (ids : List ℕ) (before after : Job) : Prop :=
  after = .unload → ∃ id, before = .load id ∧ id ∉ ids

/-- The sessions and the line at the lock, in any order of steps. -/
structure Inv (s : Server) : Prop where
  counted : s.active = s.sessions.length
  unique : s.ids.Nodup
  waits : s.monitor = .unloading ↔ .unload ∈ s.lock.line
  ordered : s.lock.line.Pairwise (Over s.ids)
  holds : ∀ id model, (id, .loaded model) ∈ s.sessions →
    s.model = some model ∧ .unload ∉ s.lock.line
  fresh : (∀ id ∈ s.ids, id < s.next) ∧ (∀ id ∈ s.created, id < s.next) ∧
    ∀ id, .load id ∈ s.lock.line → id < s.next
  armed : s.released = true → s.sessions = []

/-- Whoever has the lock is building the model. -/
def Building (s : Server) : Prop :=
  ∀ job, s.lock.holder = some job → (∃ id, job = .load id) ∧ s.model = none

variable {s : Server} {id : ℕ}

theorem Over.mono {ids ids' : List ℕ} {before after : Job} (h : Over ids before after)
    (hsub : ∀ id ∈ ids', id ∈ ids) : Over ids' before after := by
  intro hafter
  obtain ⟨id, hbefore, hnot⟩ := h hafter
  exact ⟨id, hbefore, fun hmem => hnot (hsub id hmem)⟩

theorem Inv.busy_iff (h : Inv s) : s.busy = true ↔ s.sessions ≠ [] := by
  unfold Server.busy
  rw [h.counted, decide_eq_true_eq, List.length_pos_iff]

/-! ## What a load came to -/

theorem ids_served (phase : Phase) : (s.served id phase).map Prod.fst = s.ids := by
  unfold served ids
  rw [List.map_map]
  refine List.map_congr_left fun session _ => ?_
  show (if session = (id, .loading) then (id, phase) else session).1 = session.1
  split
  · rename_i heq
    rw [heq]
  · rfl

theorem length_served (phase : Phase) : (s.served id phase).length = s.sessions.length :=
  List.length_map _

theorem mem_served {phase : Phase} {session : ℕ × Phase} (h : session ∈ s.served id phase) :
    session ∈ s.sessions ∨ session = (id, phase) ∧ id ∈ s.ids := by
  obtain ⟨before, hbefore, heq⟩ := List.mem_map.mp h
  split at heq
  · rename_i hloading
    refine .inr ⟨heq.symm, List.mem_map.mpr ⟨before, hbefore, ?_⟩⟩
    rw [hloading]
  · exact .inl (heq ▸ hbefore)

/-- A load that is at the head of the line leaves it. -/
theorem Inv.unload_notMem (h : Inv s) (hholder : s.lock.holder = some (.load id))
    (hid : id ∈ s.ids) : .unload ∉ s.lock.line := by
  rw [FairLock.line_release hholder]
  intro hmem
  rcases List.mem_cons.mp hmem with heq | hmem
  · cases heq
  · have hordered := h.ordered
    rw [FairLock.line_release hholder] at hordered
    obtain ⟨other, heq, hnot⟩ := (List.pairwise_cons.mp hordered).1 _ hmem rfl
    cases heq
    exact hnot hid

/-- A load that leaves the lock, and what became of the model and of its session. -/
theorem Inv.load_leaves (h : Inv s) (hholder : s.lock.holder = some (.load id)) {phase : Phase}
    {model : Option ℕ} {built : ℕ} (hkept : ∀ m, s.model = some m → model = some m)
    (hphase : ∀ m, phase = .loaded m → model = some m) :
    Inv { s with
      model := model, built := built, sessions := s.served id phase, lock := s.lock.release } := by
  have hline := FairLock.line_release hholder
  have hsub : ∀ job, job ∈ s.lock.release.line → job ∈ s.lock.line := by
    intro job hmem
    rw [hline]
    exact List.mem_cons_of_mem _ hmem
  have hids : (s.served id phase).map Prod.fst = s.ids := ids_served phase
  constructor
  · exact h.counted.trans (length_served phase).symm
  · show ((s.served id phase).map Prod.fst).Nodup
    rw [hids]
    exact h.unique
  · show s.monitor = .unloading ↔ Job.unload ∈ s.lock.release.line
    rw [h.waits, hline, List.mem_cons]
    exact ⟨fun hmem => hmem.resolve_left (fun heq => by cases heq), .inr⟩
  · show s.lock.release.line.Pairwise (Over ((s.served id phase).map Prod.fst))
    rw [hids]
    exact (List.pairwise_cons.mp (hline ▸ h.ordered)).2
  · intro other m hmem
    rcases mem_served hmem with hmem | ⟨heq, hid⟩
    · obtain ⟨hmodel, hnot⟩ := h.holds other m hmem
      exact ⟨hkept m hmodel, fun hunload => hnot (hsub _ hunload)⟩
    · have hnot := h.unload_notMem hholder hid
      exact ⟨hphase m (Prod.mk.inj heq).2.symm, fun hunload => hnot (hsub _ hunload)⟩
  · obtain ⟨hfresh, hcreated, hlocked⟩ := h.fresh
    refine ⟨?_, hcreated, fun other hmem => hlocked other (hsub _ hmem)⟩
    show ∀ other ∈ (s.served id phase).map Prod.fst, _
    rw [hids]
    exact hfresh
  · intro hreleased
    show s.served id phase = []
    unfold served
    rw [h.armed hreleased]
    rfl

/-! ## Being granted the lock -/

theorem Inv.granted_inv (h : Inv s) {job : Job} (hholder : s.lock.holder = some job) :
    Inv (s.granted job) ∧ Building (s.granted job) := by
  cases job with
  | load id =>
    unfold granted
    dsimp only
    split
    · rename_i model hmodel
      refine ⟨h.load_leaves hholder (fun _ hm => hm) fun m hphase => ?_, ?_⟩
      · cases hphase
        exact hmodel
      · intro job hnone
        cases hnone
    · rename_i hmodel
      refine ⟨h, fun job hjob => ?_⟩
      obtain rfl := Option.some.inj (hholder.symm.trans hjob)
      exact ⟨⟨id, rfl⟩, hmodel⟩
  | unload =>
    have hline := FairLock.line_release hholder
    have hmem : Job.unload ∈ s.lock.line := by
      rw [hline]
      exact List.mem_cons_self
    obtain ⟨hhead, htail⟩ := List.pairwise_cons.mp (hline ▸ h.ordered)
    have hnot : Job.unload ∉ s.lock.release.line := by
      intro hmem
      obtain ⟨other, heq, -⟩ := hhead _ hmem rfl
      cases heq
    refine ⟨?_, fun job hnone => (by cases hnone)⟩
    constructor
    · exact h.counted
    · exact h.unique
    · exact ⟨fun hmonitor => (by cases hmonitor), fun hunload => absurd hunload hnot⟩
    · exact htail
    · intro id model hloaded
      exact absurd hmem (h.holds id model hloaded).2
    · refine ⟨h.fresh.1, h.fresh.2.1, fun id hload => h.fresh.2.2 id ?_⟩
      rw [hline]
      exact List.mem_cons_of_mem _ hload
    · exact h.armed

/-- Asking for the lock, when what asks may come last in the line. -/
theorem Inv.request_inv {job : Job} (hinv : Inv { s with lock := s.lock.ask job })
    (hbuilding : Building s) : Inv (s.request job) ∧ Building (s.request job) := by
  unfold request
  dsimp only
  split
  · rename_i hfree
    exact hinv.granted_inv (FairLock.holder_ask hfree)
  · rename_i hfree
    refine ⟨hinv, fun other hother => hbuilding other ?_⟩
    rwa [FairLock.holder_ask_of_not hfree] at hother

/-! ## Steps -/

/-- Only the lock changes, and its line does not. -/
theorem Inv.relock (h : Inv s) {lock : FairLock Job} (hline : lock.line = s.lock.line) :
    Inv { s with lock := lock } where
  counted := h.counted
  unique := h.unique
  waits := by rw [hline]; exact h.waits
  ordered := by rw [hline]; exact h.ordered
  holds := by rw [hline]; exact h.holds
  fresh := by rw [hline]; exact h.fresh
  armed := h.armed

theorem Inv.runSession (h : Inv s) (accepted : Bool) : Inv (s.runSession accepted) := by
  obtain ⟨hids, hcreated, hlocked⟩ := h.fresh
  have hnext : s.next ∉ s.ids := fun hmem => absurd (hids _ hmem) (lt_irrefl _)
  have happend : (s.runSession accepted).ids = s.ids ++ [s.next] := List.map_append
  constructor
  · show s.active + 1 = (s.sessions ++ [_]).length
    rw [List.length_append, h.counted]
    rfl
  · rw [happend]
    exact List.nodup_append.mpr ⟨h.unique, List.nodup_singleton _, fun id hid other hother => by
      rw [List.mem_singleton.mp hother]
      exact fun heq => hnext (heq ▸ hid)⟩
  · exact h.waits
  · rw [happend]
    refine h.ordered.imp_of_mem fun hbefore _ hover hafter => ?_
    obtain ⟨id, rfl, hid⟩ := hover hafter
    refine ⟨id, rfl, fun hmem => ?_⟩
    -- a load in the line is of an earlier session
    rcases List.mem_append.mp hmem with hmem | hmem
    · exact hid hmem
    · have hlt := hlocked id hbefore
      rw [List.mem_singleton.mp hmem] at hlt
      exact lt_irrefl _ hlt
  · intro id model hmem
    rcases List.mem_append.mp hmem with hmem | hmem
    · exact h.holds id model hmem
    · cases accepted <;> cases List.mem_singleton.mp hmem
  · have hsucc : ∀ id, id < s.next → id < s.next + 1 := fun id hid => by omega
    refine ⟨fun id hid => ?_, fun id hid => ?_, fun id hid => hsucc id (hlocked id hid)⟩
    · rw [happend] at hid
      rcases List.mem_append.mp hid with hid | hid
      · exact hsucc id (hids id hid)
      · rw [List.mem_singleton.mp hid]
        exact Nat.lt_succ_self _
    · cases accepted with
      | false => exact hsucc id (hcreated id hid)
      | true =>
        rcases List.mem_append.mp hid with hid | hid
        · exact hsucc id (hcreated id hid)
        · rw [List.mem_singleton.mp hid]
          exact Nat.lt_succ_self _
  · intro hreleased
    cases hreleased

theorem Inv.endSession (h : Inv s) (hid : id ∈ s.ids) : Inv (s.endSession id) := by
  have hids : (s.endSession id).ids = s.ids.filter fun other => other ≠ id := by
    show (s.sessions.filter _).map Prod.fst = (s.sessions.map Prod.fst).filter _
    rw [List.filter_map]
    rfl
  have hsub : ∀ other ∈ (s.endSession id).ids, other ∈ s.ids := by
    rw [hids]
    exact fun other hother => (List.mem_filter.mp hother).1
  constructor
  · have hlength : (s.endSession id).ids.length + 1 = s.ids.length := by
      have herase : (s.ids.filter fun other => other ≠ id) = s.ids.erase id := by
        rw [h.unique.erase_eq_filter]
        refine List.filter_congr fun other _ => ?_
        rw [decide_not]
        rfl
      rw [hids, herase, List.length_erase_of_mem hid]
      have hpos := List.length_pos_of_mem hid
      omega
    have hafter : (s.endSession id).ids.length = (s.endSession id).sessions.length :=
      List.length_map _
    have hbefore : s.ids.length = s.sessions.length := List.length_map _
    have hcounted := h.counted
    show s.active - 1 = (s.endSession id).sessions.length
    omega
  · rw [hids]
    exact h.unique.filter _
  · exact h.waits
  · exact h.ordered.imp fun hover => hover.mono hsub
  · exact fun other model hmem => h.holds other model (List.mem_filter.mp hmem).1
  · exact ⟨fun other hother => h.fresh.1 other (hsub other hother), h.fresh.2⟩
  · intro hreleased
    show s.sessions.filter _ = []
    rw [h.armed hreleased]
    rfl

theorem Inv.ask_load (h : Inv s) (hid : id ∈ s.created) :
    Inv { s with created := s.created.erase id, lock := s.lock.ask (.load id) } := by
  obtain ⟨hids, hcreated, hlocked⟩ := h.fresh
  have hunload : Job.unload ∈ (s.lock.ask (.load id)).line ↔ Job.unload ∈ s.lock.line := by
    rw [FairLock.line_ask, List.mem_append, List.mem_singleton]
    exact ⟨fun hmem => hmem.resolve_right (fun heq => by cases heq), .inl⟩
  constructor
  · exact h.counted
  · exact h.unique
  · exact h.waits.trans hunload.symm
  · exact FairLock.pairwise_ask h.ordered fun job _ hafter => by cases hafter
  · intro other model hmem
    obtain ⟨hmodel, hnot⟩ := h.holds other model hmem
    exact ⟨hmodel, fun hmem => hnot (hunload.mp hmem)⟩
  · refine ⟨hids, fun other hother => hcreated other (List.mem_of_mem_erase hother), ?_⟩
    intro other hother
    have hother : Job.load other ∈ (s.lock.ask (.load id)).line := hother
    rw [FairLock.line_ask] at hother
    rcases List.mem_append.mp hother with hother | hother
    · exact hlocked other hother
    · cases List.mem_singleton.mp hother
      exact hcreated id hid
  · exact h.armed

/-- The monitor asks for the lock while no session is there. -/
theorem Inv.ask_unload (h : Inv s) (hidle : s.sessions = []) (hmonitor : s.monitor ≠ .unloading) :
    Inv { s with released := true, monitor := .unloading, lock := s.lock.ask .unload } := by
  have hids : s.ids = [] := congrArg (List.map Prod.fst) hidle
  have hnone : Job.unload ∉ s.lock.line := fun hmem => hmonitor (h.waits.mpr hmem)
  constructor
  · exact h.counted
  · exact h.unique
  · refine ⟨fun _ => ?_, fun _ => rfl⟩
    show Job.unload ∈ (s.lock.ask .unload).line
    rw [FairLock.line_ask]
    exact List.mem_append_right _ List.mem_cons_self
  · refine FairLock.pairwise_ask h.ordered fun job hjob _ => ?_
    cases job with
    | load id =>
      refine ⟨id, rfl, fun hid => ?_⟩
      have hid : id ∈ s.ids := hid
      rw [hids] at hid
      cases hid
    | unload => exact absurd hjob hnone
  · intro id model hmem
    rw [show s.sessions = [] from hidle] at hmem
    cases hmem
  · refine ⟨h.fresh.1, h.fresh.2.1, fun id hid => ?_⟩
    have hid : Job.load id ∈ (s.lock.ask .unload).line := hid
    rw [FairLock.line_ask] at hid
    rcases List.mem_append.mp hid with hid | hid
    · exact h.fresh.2.2 id hid
    · cases List.mem_singleton.mp hid
  · exact fun _ => hidle

/-- The monitor goes on without the lock. -/
theorem Inv.moved (h : Inv s) {monitor : Monitor} (hmonitor : monitor ≠ .unloading)
    (hbefore : s.monitor ≠ .unloading) : Inv { s with monitor := monitor } where
  counted := h.counted
  unique := h.unique
  waits := ⟨fun heq => absurd heq hmonitor, fun hmem => absurd (h.waits.mpr hmem) hbefore⟩
  ordered := h.ordered
  holds := h.holds
  fresh := h.fresh
  armed := h.armed

theorem Inv.monitorLoop (h : Inv s) (hmonitor : s.monitor ≠ .unloading) : Inv s.monitorLoop := by
  refine h.moved (fun heq => ?_) hmonitor
  split at heq <;> cases heq

/-- An idle server is told to stop, or its model is dropped once the lock is free. -/
theorem Inv.maybeRelease (h : Inv s) (hbuilding : Building s) (hmonitor : s.monitor ≠ .unloading)
    (action : IdleAction) : Inv (s.maybeRelease action) ∧ Building (s.maybeRelease action) := by
  unfold Server.maybeRelease
  split
  · exact ⟨h.monitorLoop hmonitor, hbuilding⟩
  · rename_i hidle
    have hsessions : s.sessions = [] := by
      by_contra hne
      exact hidle (.inl (h.busy_iff.mpr hne))
    cases action with
    | exit =>
      have hstop : Inv { s with released := true, stop := true } :=
        { h with armed := fun _ => hsessions }
      exact ⟨hstop.monitorLoop hmonitor, hbuilding⟩
    | unload => exact (h.ask_unload hsessions hmonitor).request_inv hbuilding

theorem Inv.cancelMonitor (h : Inv s) (hbuilding : Building s) : Inv s.cancelMonitor := by
  have hsub : ∀ job, job ∈ (s.lock.abandon .unload).line → job ∈ s.lock.line := fun job hmem =>
    FairLock.line_abandon_sublist.subset hmem
  constructor
  · exact h.counted
  · exact h.unique
  · refine ⟨fun heq => (by cases heq), fun hmem => ?_⟩
    rcases List.mem_append.mp hmem with hmem | hmem
    · obtain ⟨⟨id, heq⟩, -⟩ := hbuilding _ (Option.mem_toList.mp hmem)
      cases heq
    · exact absurd hmem FairLock.notMem_abandon
  · exact h.ordered.sublist FairLock.line_abandon_sublist
  · intro id model hmem
    obtain ⟨hmodel, hnot⟩ := h.holds id model hmem
    exact ⟨hmodel, fun hmem => hnot (hsub _ hmem)⟩
  · exact ⟨h.fresh.1, h.fresh.2.1, fun id hid => h.fresh.2.2 id (hsub _ hid)⟩
  · exact h.armed

variable {action : IdleAction} {timeout : ℚ} {t : Server}

/-- **What every step keeps.** -/
theorem Step.inv (h : Inv s ∧ Building s) (hstep : Step action timeout s t) :
    Inv t ∧ Building t := by
  obtain ⟨hinv, hbuilding⟩ := h
  cases hstep with
  | runSession accepted => exact ⟨hinv.runSession accepted, hbuilding⟩
  | endSession hid => exact ⟨hinv.endSession hid, hbuilding⟩
  | startLoad hid => exact (hinv.ask_load hid).request_inv hbuilding
  | take htake =>
    obtain ⟨hline, hholder, -⟩ := FairLock.line_take htake
    exact (hinv.relock hline).granted_inv hholder
  | loadBuilt hholder =>
    obtain ⟨-, hnone⟩ := hbuilding _ hholder
    refine ⟨hinv.load_leaves hholder (fun m hm => ?_) fun m hphase => ?_, fun job hnone => ?_⟩
    · cases hnone.symm.trans hm
    · cases hphase
      rfl
    · cases hnone
  | loadFailed hholder =>
    refine ⟨hinv.load_leaves hholder (fun m hm => hm) fun m hphase => ?_, fun job hnone => ?_⟩
    · cases hphase
    · cases hnone
  | wake hasleep hdue =>
    have hmonitor : s.monitor ≠ .unloading := by
      rw [hasleep]
      exact fun heq => by cases heq
    unfold Server.wake
    split
    · exact ⟨hinv.moved (fun heq => by cases heq) hmonitor, hbuilding⟩
    · split
      · exact hinv.maybeRelease hbuilding hmonitor action
      · exact ⟨hinv.monitorLoop hmonitor, hbuilding⟩
  | trimDone htrimming =>
    have hmonitor : s.monitor ≠ .unloading := by
      rw [htrimming]
      exact fun heq => by cases heq
    have htrimmed : Inv { s with trimmed := s.now } := { hinv with }
    exact ⟨htrimmed.monitorLoop hmonitor, hbuilding⟩
  | signal => exact ⟨{ hinv with }, hbuilding⟩
  | cancelMonitor hstop => exact ⟨hinv.cancelMonitor hbuilding, hbuilding⟩
  | elapse hd hstarted hdue => exact ⟨{ hinv with }, hbuilding⟩

/-! ## Runs -/

theorem serving_inv (preload : Bool) : Inv (serving preload) ∧ Building (serving preload) := by
  refine ⟨?_, fun job hjob => ?_⟩
  · constructor <;> cases preload <;> simp [serving, ids, FairLock.line]
  · cases preload <;> cases hjob

theorem inv_of_reachable {preload : Bool}
    (h : StepSystem.Reachable (Step action timeout) (serving preload) s) : Inv s ∧ Building s :=
  StepSystem.reachable_induction (I := fun s => Inv s ∧ Building s) h (serving_inv preload)
    fun _ _ hinv hstep => hstep.inv hinv

/-- **A session keeps the model it loaded.** Whatever the order in which sessions begin, load, fail,
end and are cancelled, and in which the monitor drops the model, a session that has been given a
model finds that same model until it is over, and nobody is about to drop it. -/
theorem model_is_kept {preload : Bool} {model : ℕ}
    (h : StepSystem.Reachable (Step action timeout) (serving preload) s)
    (hloaded : (id, .loaded model) ∈ s.sessions) :
    s.model = some model ∧ s.monitor ≠ .unloading ∧ ¬ Job.unload ∈ s.lock.line := by
  obtain ⟨hinv, -⟩ := inv_of_reachable h
  obtain ⟨hmodel, hnot⟩ := hinv.holds id model hloaded
  exact ⟨hmodel, fun hmonitor => hnot (hinv.waits.mp hmonitor), hnot⟩

/-! ## A load that outlives its session -/

/-- A session is cancelled while its load builds the model, and the server is idle for a second. -/
def orphaned : Server :=
  let s := (((serving false).runSession true).startLoad 0).endSession 0
  { s with now := s.now + 1 }

/-- The monitor waits for the load, and another session for both. -/
def overtaken : Server := (((orphaned.wake .unload 1).runSession true).startLoad 1)

/-- What was built is dropped, and built again. -/
def rebuilt : Server :=
  let s := overtaken.loadBuilt 0
  let s := { s with lock := ⟨some .unload, [.load 1]⟩ }.granted .unload
  ({ s with lock := ⟨some (.load 1), []⟩ }.granted (.load 1)).loadBuilt 1

theorem orphaned_reachable :
    StepSystem.Reachable (Step .unload 1) (serving false) orphaned := by
  refine .tail (.tail (.tail (.single (.runSession true)) (@Step.startLoad _ _ _ 0 ?_))
    (@Step.endSession _ _ _ 0 ?_)) (@Step.elapse _ _ _ 1 ?_ ?_ ?_)
  · decide +kernel
  · decide +kernel
  · decide +kernel
  · decide +kernel
  · intro since hasleep
    obtain rfl : 0 = since := Monitor.asleep.inj hasleep
    decide +kernel

theorem rebuilt_reachable :
    StepSystem.Reachable (Step .unload 1) (serving false) rebuilt := by
  refine .tail (.tail (.tail (.tail (.tail (.tail (.tail orphaned_reachable
    (@Step.wake _ _ _ 0 ?_ ?_)) (.runSession true)) (@Step.startLoad _ _ _ 1 ?_))
    (@Step.loadBuilt _ _ _ 0 ?_)) (@Step.take _ _ _ .unload _ ?_))
    (@Step.take _ _ _ (.load 1) _ ?_)) (@Step.loadBuilt _ _ _ 1 ?_)
  all_goals decide +kernel

theorem rebuilt_is_kept :
    rebuilt.model = some 1 ∧ rebuilt.monitor ≠ .unloading ∧ ¬ Job.unload ∈ rebuilt.lock.line :=
  model_is_kept rebuilt_reachable (show (1, .loaded 1) ∈ rebuilt.sessions by decide +kernel)

end Lifecycle

end Myna
