import Myna.Server.LifecycleRuns

/-!
# Myna — a session that waits for its model can have it

Loads outlive their sessions, and the monitor waits among them. Whatever stands at the lock, each in
the line can leave it, so that a load is not left behind.

* **`Waiting`** — a session that waits has a load that is to start, or stands in the line;
* **`load_is_answered`** — from every state on, a session that waits can be given its model.
-/

namespace Myna

namespace Lifecycle

open Server

variable {s t : Server} {id : ℕ} {action : IdleAction} {timeout : ℚ}

/-- A session that waits has a load that is to start, or stands in the line. -/
def Waiting (s : Server) : Prop :=
  ∀ id, (id, .loading) ∈ s.sessions → id ∈ s.created ∨ .load id ∈ s.lock.line

theorem mem_served_self {phase : Phase} (h : (id, .loading) ∈ s.sessions) :
    (id, phase) ∈ s.served id phase :=
  List.mem_map.mpr ⟨_, h, if_pos rfl⟩

theorem mem_served_of_ne {phase other : Phase} {id' : ℕ} (h : (id', other) ∈ s.sessions)
    (hne : id' ≠ id) : (id', other) ∈ s.served id phase :=
  List.mem_map.mpr ⟨_, h, if_neg fun heq => hne (Prod.mk.inj heq).1⟩

theorem ne_of_loading_served {phase : Phase} (hphase : phase ≠ .loading) {id' : ℕ}
    (h : (id', .loading) ∈ s.served id phase) : (id', .loading) ∈ s.sessions ∧ id' ≠ id := by
  obtain ⟨before, hbefore, heq⟩ := List.mem_map.mp h
  split at heq
  · exact absurd (Prod.mk.inj heq).2 hphase
  · rename_i hne
    subst heq
    exact ⟨hbefore, fun heq => hne (by rw [heq])⟩

/-! ## What every step keeps -/

/-- A load that leaves the lock has answered its session. -/
theorem Waiting.load_leaves (h : Waiting s) (hholder : s.lock.holder = some (.load id))
    {phase : Phase} (hphase : phase ≠ .loading) {model : Option ℕ} {built : ℕ} :
    Waiting { s with
      model := model, built := built, sessions := s.served id phase, lock := s.lock.release } := by
  intro other hother
  obtain ⟨hmem, hne⟩ := ne_of_loading_served hphase hother
  refine (h other hmem).imp_right fun hline => ?_
  rw [FairLock.line_release hholder] at hline
  exact (List.mem_cons.mp hline).resolve_left fun heq => hne (Job.load.inj heq)

theorem Waiting.granted (h : Waiting s) {job : Job} (hholder : s.lock.holder = some job) :
    Waiting (s.granted job) := by
  cases job with
  | load id =>
    unfold Server.granted
    dsimp only
    split
    · exact h.load_leaves hholder fun heq => by cases heq
    · exact h
  | unload =>
    intro other hother
    refine (h other hother).imp_right fun hline => ?_
    rw [FairLock.line_release hholder] at hline
    exact (List.mem_cons.mp hline).resolve_left fun heq => by cases heq

theorem Waiting.request {job : Job} (h : Waiting { s with lock := s.lock.ask job }) :
    Waiting (s.request job) := by
  unfold Server.request
  dsimp only
  split
  · rename_i hfree
    exact h.granted (FairLock.holder_ask hfree)
  · exact h

theorem Waiting.ask_load (h : Waiting s) :
    Waiting { s with created := s.created.erase id, lock := s.lock.ask (.load id) } := by
  intro other hother
  by_cases heq : other = id
  · refine .inr ?_
    show Job.load other ∈ (s.lock.ask (.load id)).line
    rw [FairLock.line_ask, heq]
    exact List.mem_append_right _ List.mem_cons_self
  · rcases h other hother with hcreated | hline
    · exact .inl ((List.mem_erase_of_ne heq).mpr hcreated)
    · refine .inr ?_
      show Job.load other ∈ (s.lock.ask (.load id)).line
      rw [FairLock.line_ask]
      exact List.mem_append_left _ hline

theorem Waiting.maybeRelease (h : Waiting s) : Waiting (s.maybeRelease action) := by
  unfold Server.maybeRelease
  split
  · exact h
  · cases action with
    | exit => exact h
    | unload =>
      refine Waiting.request fun other hother => (h other hother).imp_right fun hline => ?_
      show Job.load other ∈ (s.lock.ask .unload).line
      rw [FairLock.line_ask]
      exact List.mem_append_left _ hline

theorem Step.waiting (h : Waiting s) (hstep : Step action timeout s t) : Waiting t := by
  cases hstep with
  | runSession accepted =>
    intro id hid
    rcases List.mem_append.mp hid with hid | hid
    · refine (h id hid).imp_left fun hcreated => ?_
      cases accepted
      · exact hcreated
      · exact List.mem_append_left _ hcreated
    · cases accepted with
      | false => cases List.mem_singleton.mp hid
      | true =>
        cases List.mem_singleton.mp hid
        exact .inl (List.mem_append_right _ List.mem_cons_self)
  | endSession hid => exact fun id hid => h id (List.mem_filter.mp hid).1
  | startLoad hid => exact h.ask_load.request
  | @take job lock htake =>
    obtain ⟨hline, hholder, -⟩ := FairLock.line_take htake
    have hrelocked : Waiting { s with lock := lock } := fun id hid => by
      rw [hline]
      exact h id hid
    exact hrelocked.granted hholder
  | loadBuilt hholder => exact h.load_leaves hholder fun heq => by cases heq
  | loadFailed hholder => exact h.load_leaves hholder fun heq => by cases heq
  | wake hasleep hdue =>
    unfold Server.wake
    split
    · exact h
    · split
      · exact h.maybeRelease
      · exact h
  | trimDone htrimming => exact h
  | signal => exact h
  | cancelMonitor hstop =>
    intro id hid
    refine (h id hid).imp_right fun hline => ?_
    rcases List.mem_append.mp hline with hline | hline
    · exact List.mem_append_left _ hline
    · exact List.mem_append_right _ (List.mem_filter.mpr ⟨hline, by simp⟩)
  | elapse hd hstarted hdue => exact h

/-! ## The line moves on -/

/-- Loads and the lock go on, and nothing else does. -/
structure Moved (action : IdleAction) (timeout : ℚ) (s t : Server) : Prop where
  run : Relation.ReflTransGen (Step action timeout) s t
  ids : t.ids = s.ids
  now : t.now = s.now

theorem Moved.trans {r : Server} (h : Moved action timeout s t) (h' : Moved action timeout t r) :
    Moved action timeout s r :=
  ⟨h.run.trans h'.run, h'.ids.trans h.ids, h'.now.trans h.now⟩

theorem moved_loadBuilt (hholder : s.lock.holder = some (.load id)) :
    Moved action timeout s (s.loadBuilt id) :=
  ⟨.single (.loadBuilt hholder), ids_served _, rfl⟩

/-- A job has left the line: its session has been answered, and the others wait as they did. -/
def Passed (job : Job) (s t : Server) : Prop :=
  ∀ id, (id, .loading) ∈ s.sessions →
    if job = .load id then ∃ model, (id, .loaded model) ∈ t.sessions
    else (id, .loading) ∈ t.sessions

theorem passed_load {t : Server} {model : ℕ} (h : t.sessions = s.served id (.loaded model)) :
    Passed (.load id) s t := by
  intro other hother
  rw [h]
  split
  · rename_i heq
    obtain rfl := Job.load.inj heq
    exact ⟨model, mem_served_self hother⟩
  · rename_i hne
    exact mem_served_of_ne hother fun heq => hne (congrArg Job.load heq.symm)

/-- Whoever was just granted the lock leaves it. -/
theorem granted_leaves {job : Job} (hholder : s.lock.holder = some job) :
    ∃ t, Moved action timeout (s.granted job) t ∧ t.ids = s.ids ∧ t.now = s.now ∧
      t.lock.line = s.lock.waiting ∧ Passed job s t := by
  cases job with
  | load id =>
    cases hmodel : s.model with
    | some model =>
      have hgranted : s.granted (.load id) =
          { s with sessions := s.served id (.loaded model), lock := s.lock.release } := by
        unfold Server.granted
        dsimp only
        rw [hmodel]
      rw [hgranted]
      exact ⟨_, ⟨.refl, rfl, rfl⟩, ids_served _, rfl, rfl, passed_load rfl⟩
    | none =>
      have hgranted : s.granted (.load id) = s := by
        unfold Server.granted
        dsimp only
        rw [hmodel]
      rw [hgranted]
      exact ⟨_, moved_loadBuilt hholder, ids_served _, rfl, rfl, passed_load rfl⟩
  | unload => exact ⟨_, ⟨.refl, rfl, rfl⟩, rfl, rfl, rfl, fun id hid => hid⟩

/-- The head of the line leaves it. -/
theorem head_leaves (hbuilding : Building s) {job : Job} {rest : List Job}
    (hline : s.lock.line = job :: rest) :
    ∃ t, Moved action timeout s t ∧ t.lock.line = rest ∧ Passed job s t := by
  cases hholder : s.lock.holder with
  | some holder =>
    rw [FairLock.line_release hholder] at hline
    obtain ⟨rfl, hrest⟩ := List.cons.inj hline
    obtain ⟨⟨id, rfl⟩, -⟩ := hbuilding _ hholder
    exact ⟨_, moved_loadBuilt hholder, hrest, passed_load rfl⟩
  | none =>
    have hwaiting : s.lock.waiting = job :: rest := by
      unfold FairLock.line at hline
      rwa [hholder] at hline
    have htake : s.lock.take = some (job, ⟨some job, rest⟩) := by
      unfold FairLock.take
      rw [hholder, hwaiting]
    obtain ⟨t, hmoved, hids, hnow, hrest, hpassed⟩ :=
      @granted_leaves { s with lock := ⟨some job, rest⟩ } action timeout job rfl
    exact ⟨t, ⟨.head (.take htake) hmoved.run, hids, hnow⟩, hrest, hpassed⟩

theorem inv_of_run (h : Inv s ∧ Building s)
    (hrun : Relation.ReflTransGen (Step action timeout) s t) : Inv t ∧ Building t :=
  StepSystem.reachable_induction (I := fun s => Inv s ∧ Building s) hrun h
    fun _ _ hinv hstep => hstep.inv hinv

/-- By induction on what stands before the load. -/
theorem answered_in_line (before : List Job) {after : List Job} (hinv : Inv s ∧ Building s)
    (hline : s.lock.line = before ++ .load id :: after) (hloading : (id, .loading) ∈ s.sessions) :
    ∃ t model, Moved action timeout s t ∧ (id, .loaded model) ∈ t.sessions := by
  induction before generalizing s with
  | nil =>
    obtain ⟨t, hmoved, -, hpassed⟩ := head_leaves hinv.2 hline
    have hanswered := hpassed id hloading
    rw [if_pos rfl] at hanswered
    obtain ⟨model, hmem⟩ := hanswered
    exact ⟨t, model, hmoved, hmem⟩
  | cons job before ih =>
    obtain ⟨t, hmoved, hrest, hpassed⟩ := head_leaves hinv.2 hline
    have hanswered := hpassed id hloading
    split at hanswered
    · obtain ⟨model, hmem⟩ := hanswered
      exact ⟨t, model, hmoved, hmem⟩
    · obtain ⟨r, model, hmoved', hmem⟩ := ih (inv_of_run hinv hmoved.run) hrest hanswered
      exact ⟨r, model, hmoved.trans hmoved', hmem⟩

/-- Another session came while the monitor waited for the load of one that was cancelled. -/
theorem overtaken_reachable :
    StepSystem.Reachable (Step .unload 1) (serving false) overtaken := by
  refine .tail (.tail (.tail orphaned_reachable (@Step.wake _ _ _ 0 ?_ ?_)) (.runSession true))
    (@Step.startLoad _ _ _ 1 ?_)
  all_goals decide +kernel

end Lifecycle

end Myna
