import Myna.Desktop.Sound

/-!
# Myna — what is heard of a session, over any run

The daemon, any number of callers of `preview` and the thread take their steps in any order.

* **`plays_in_turn`** — the jobs that were taken are played in turn, each whole, and the cues among
  them are cues of the session, in its order;
* **`one_preview`** — the flag is set exactly while one preview is under way;
* **`settles`** — the flag is cleared, and all that was taken is played.
-/

namespace Myna

namespace Desktop

namespace Sound

/-! ## The order of the cues -/

/-- The cues that some states earn, from a phase. -/
def cuesOf (phase : Phase) : List IndicatorState → List Cue
  | [] => []
  | state :: rest => (step phase state).2.toList ++ cuesOf (step phase state).1 rest

def phaseOf (states : List IndicatorState) : Phase :=
  states.foldl (fun phase state => (step phase state).1) .idle

/-- A start is heard once, and a stop after the start that it ends. -/
def Follows : Option Cue → Cue → Prop
  | last, .start => last ≠ some .start
  | last, .stop => last = some .start
  | _, .error => True

/-- Each cue follows the one before it, `last` before them all. -/
def InOrder : Option Cue → List Cue → Prop
  | _, [] => True
  | last, cue :: rest => Follows last cue ∧ InOrder (some cue) rest

theorem cuesOf_concat (phase : Phase) (states : List IndicatorState) (state : IndicatorState) :
    cuesOf phase (states ++ [state]) = cuesOf phase states ++
      (step (states.foldl (fun phase state => (step phase state).1) phase) state).2.toList := by
  induction states generalizing phase with
  | nil => exact (List.append_nil _).trans rfl
  | cons first states ih => rw [List.cons_append, cuesOf, cuesOf, ih, List.append_assoc]; rfl

/-- A phase is of listening exactly if the last cue was a start. -/
theorem step_follows {phase : Phase} {last : Option Cue}
    (hphase : phase = .listening ↔ last = some .start) (state : IndicatorState) :
    (∀ cue, (step phase state).2 = some cue → Follows last cue) ∧
      ((step phase state).1 = .listening ↔
        ((step phase state).2 <|> last) = some .start) := by
  unfold step
  cases state with
  | recording =>
    dsimp only
    split_ifs with hlistening
    · exact ⟨nofun, by simp [hphase.mp hlistening]⟩
    · refine ⟨fun cue h => ?_, by simp⟩
      cases h
      exact fun h => hlistening (hphase.mpr h)
  | transcribing => exact ⟨nofun, by simpa using hphase⟩
  | finalizing =>
    dsimp only
    split_ifs with hlistening
    · refine ⟨fun cue h => ?_, by simp⟩
      cases h
      exact hphase.mp hlistening
    · exact ⟨nofun, by simpa using hphase⟩
  | hidden =>
    dsimp only
    split_ifs with hlistening
    · refine ⟨fun cue h => ?_, by simp⟩
      cases h
      exact hphase.mp hlistening
    · refine ⟨nofun, ?_⟩
      simpa using fun h => hlistening (hphase.mpr h)
  | error message recoverable =>
    cases recoverable with
    | true =>
      dsimp only
      split_ifs with hlistening
      · refine ⟨fun cue h => ?_, by simp⟩
        cases h
        exact hphase.mp hlistening
      · refine ⟨nofun, ?_⟩
        simpa using fun h => hlistening (hphase.mpr h)
    | false =>
      dsimp only
      split_ifs with hfailed
      · refine ⟨nofun, ?_⟩
        rw [hfailed] at hphase
        simpa using hphase
      · refine ⟨fun cue h => ?_, by simp⟩
        cases h
        exact trivial

theorem inOrder_cuesOf {phase : Phase} {last : Option Cue}
    (hphase : phase = .listening ↔ last = some .start) (states : List IndicatorState) :
    InOrder last (cuesOf phase states) := by
  induction states generalizing phase last with
  | nil => exact trivial
  | cons state states ih =>
    obtain ⟨hfollows, hnext⟩ := step_follows hphase state
    rw [cuesOf]
    cases hcue : (step phase state).2 with
    | none =>
      rw [hcue] at hnext
      exact ih hnext
    | some cue =>
      rw [hcue] at hnext
      exact ⟨hfollows cue hcue, ih hnext⟩

/-! ## What is heard -/

/-- The sounds of a job that are still to come. -/
def Thread.rest : Thread → List (Option SoundSet × Cue)
  | .waiting => []
  | .cue c => [(none, c)]
  | .preview set left => left.map fun c => (some set, c)

def Thread.isPreview : Thread → Bool
  | .preview _ _ => true
  | _ => false

def Job.cue? : Job → Option Cue
  | .cue c => some c
  | .preview _ => none

/-- How many steps a caller has still to take, with those of the job that it sends. -/
def Caller.left : Caller → ℕ
  | .idle => 0
  | .marked _ => 6
  | .refused => 1

@[simp] theorem Caller.left_idle : Caller.idle.left = 0 := rfl

@[simp] theorem Caller.left_marked (set : SoundSet) : (Caller.marked set).left = 6 := rfl

@[simp] theorem Caller.left_refused : Caller.refused.left = 1 := rfl

def Job.left : Job → ℕ
  | .cue _ => 2
  | .preview _ => 5

def Thread.left : Thread → ℕ
  | .waiting => 0
  | .cue _ => 1
  | .preview _ left => left.length + 1

theorem rest_start (job : Job) : (Thread.start job).rest = job.sounds := by
  cases job <;> rfl

theorem isPreview_start (job : Job) : (Thread.start job).isPreview = job.isPreview := by
  cases job <;> rfl

namespace State

variable {ι : Type*} {s t : State ι}

/-- What was taken and is not played yet. -/
def rest (s : State ι) : List (Option SoundSet × Cue) := s.thread.rest ++ s.queue.flatMap Job.sounds

/-- The previews that are queued or playing. -/
def underWay (s : State ι) : ℕ :=
  s.queue.countP Job.isPreview + if s.thread.isPreview then 1 else 0

/-- What was played, and what is to come, is what was taken. -/
structure Account (s : State ι) : Prop where
  played : s.played.map Prod.fst ++ s.rest = s.accepted.flatMap Job.sounds
  named : ∀ sound ∈ s.played, ∀ set, sound.1.1 = some set → sound.2 = set
  room : s.queue.length ≤ BACKLOG
  phase : s.phase = phaseOf s.shown
  cues : (s.accepted.filterMap Job.cue?).Sublist (cuesOf .idle s.shown)

/-- Who set the flag: none, one caller, or one preview that was taken. -/
inductive Mark (s : State ι) : Prop
  | free (hflag : s.previewing = false) (hcallers : ∀ i, s.callers i = .idle)
      (hunder : s.underWay = 0)
  | caller (i : ι) (hflag : s.previewing = true) (hi : s.callers i ≠ .idle)
      (hcallers : ∀ j, j ≠ i → s.callers j = .idle) (hunder : s.underWay = 0)
  | job (hflag : s.previewing = true) (hcallers : ∀ i, s.callers i = .idle)
      (hunder : s.underWay = 1)

theorem trySend_eq (s : State ι) (job : Job) :
    s.trySend job = (s, false) ∨ s.queue.length < BACKLOG ∧ s.trySend job =
      ({ s with queue := s.queue ++ [job], accepted := s.accepted ++ [job] }, true) := by
  unfold trySend
  split_ifs with hroom
  · exact .inr ⟨hroom, rfl⟩
  · exact .inl rfl

theorem Account.trySend (h : Account s) (job : Job)
    (hcue : (s.accepted.filterMap Job.cue? ++ job.cue?.toList).Sublist (cuesOf .idle s.shown)) :
    Account (s.trySend job).1 := by
  obtain heq | ⟨hroom, heq⟩ := trySend_eq s job
  · rw [heq]
    exact h
  · rw [heq]
    refine { named := h.named, phase := h.phase, played := ?_, room := ?_, cues := ?_ }
    · have hplayed := h.played
      simp only [rest, List.flatMap_append, List.flatMap_singleton, ← List.append_assoc]
        at hplayed ⊢
      rw [hplayed]
    · show (s.queue ++ [job]).length ≤ BACKLOG
      rw [List.length_append, List.length_singleton]
      exact hroom
    · rw [List.filterMap_append]
      cases hjob : job.cue? with
      | none => simpa [hjob] using hcue
      | some c => simpa [hjob] using hcue

theorem Account.setState (h : Account s) (state : IndicatorState) : Account (s.setState state) := by
  have hphase : (step s.phase state).1 = phaseOf (s.shown ++ [state]) := by
    rw [h.phase, phaseOf, phaseOf, List.foldl_append]
    rfl
  have hcues := cuesOf_concat .idle s.shown state
  rw [show s.shown.foldl (fun phase state => (step phase state).1) .idle = s.phase from
    h.phase.symm] at hcues
  -- The state is shown before its cue is played.
  have hshown : Account { s with phase := (step s.phase state).1, shown := s.shown ++ [state] } :=
    { h with
      phase := hphase
      cues := h.cues.trans (hcues ▸ List.sublist_append_left _ _) }
  unfold State.setState
  dsimp only
  cases hcue : (step s.phase state).2 with
  | none => exact hshown
  | some earned =>
    dsimp only
    split_ifs
    · refine hshown.trySend _ ?_
      rw [hcue] at hcues
      show (_ ++ [earned]).Sublist (cuesOf .idle (s.shown ++ [state]))
      rw [hcues]
      exact h.cues.append (List.Sublist.refl [earned])
    · exact hshown

theorem Account.turn (h : Account s) : Account s.turn := by
  have hplayed := h.played
  unfold State.turn
  split
  · exact h
  · rename_i job queue hthread hqueue
    refine { h with played := ?_, room := ?_ }
    · rw [rest, hthread, hqueue, Thread.rest, List.nil_append, List.flatMap_cons] at hplayed
      rw [rest, rest_start]
      exact hplayed
    · have hroom := h.room
      rw [hqueue, List.length_cons] at hroom
      exact Nat.le_of_succ_le hroom
  · rename_i c hthread
    refine { h with played := ?_, named := ?_ }
    · rw [rest, hthread] at hplayed
      simpa [rest, Thread.rest] using hplayed
    · intro sound hmem set hset
      rcases List.mem_append.mp hmem with hmem | hmem
      · exact h.named sound hmem set hset
      · obtain rfl := List.mem_singleton.mp hmem
        cases hset
  · rename_i set c left hthread
    refine { h with played := ?_, named := ?_ }
    · rw [rest, hthread] at hplayed
      simpa [rest, Thread.rest] using hplayed
    · intro sound hmem named hset
      rcases List.mem_append.mp hmem with hmem | hmem
      · exact h.named sound hmem named hset
      · obtain rfl := List.mem_singleton.mp hmem
        exact Option.some.inj hset
  · rename_i hthread
    refine { h with played := ?_ }
    rw [rest, hthread] at hplayed
    simpa [rest, Thread.rest] using hplayed

theorem Account.step [DecidableEq ι] (h : Account s) (hst : Step s t) : Account t := by
  cases hst with
  | setState state => exact h.setState state
  | setEnabled enabled => exact { h with }
  | setLive live => exact { h with }
  | swap i set hidle =>
    unfold State.swap
    split_ifs
    · exact h
    · exact { h with }
  | own hown =>
    cases hown with
    | send i set hmarked =>
      have hsent := h.trySend (.preview set) (by simpa [Job.cue?] using h.cues)
      exact { hsent with }
    | unmark i hrefused => exact { h with }
    | turn hbusy => exact h.turn

/-! ## One preview -/

theorem underWay_trySend (s : State ι) (job : Job) :
    (s.trySend job).1.underWay =
      s.underWay + if (s.trySend job).2 ∧ job.isPreview then 1 else 0 := by
  obtain heq | ⟨-, heq⟩ := trySend_eq s job
  · simp [heq]
  · simp only [heq, underWay, List.countP_append, List.countP_singleton, true_and]
    omega

theorem trySend_frame (s : State ι) (job : Job) :
    (s.trySend job).1.previewing = s.previewing ∧ (s.trySend job).1.callers = s.callers := by
  obtain heq | ⟨-, heq⟩ := trySend_eq s job
  · rw [heq]
    exact ⟨rfl, rfl⟩
  · rw [heq]
    exact ⟨rfl, rfl⟩

/-- What keeps the flag, the callers and the previews under way. -/
theorem Mark.congr (h : Mark s) (hflag : t.previewing = s.previewing)
    (hcallers : t.callers = s.callers) (hunder : t.underWay = s.underWay) : Mark t := by
  cases h with
  | free hfree hidle hnone =>
    exact .free (hflag.trans hfree) (by rwa [hcallers]) (hunder.trans hnone)
  | caller i hset hi hidle hnone =>
    exact .caller i (hflag.trans hset) (by rwa [hcallers]) (by rwa [hcallers]) (hunder.trans hnone)
  | job hset hidle hone =>
    exact .job (hflag.trans hset) (by rwa [hcallers]) (hunder.trans hone)

/-- The only caller within `preview`. -/
theorem Mark.of_caller (h : Mark s) {i : ι} (hi : s.callers i ≠ .idle) :
    s.previewing = true ∧ (∀ j, j ≠ i → s.callers j = .idle) ∧ s.underWay = 0 := by
  cases h with
  | free _ hidle _ => exact absurd (hidle i) hi
  | job _ hidle _ => exact absurd (hidle i) hi
  | caller j hset hj hidle hnone =>
    obtain rfl : i = j := by
      by_contra hne
      exact hi (hidle i hne)
    exact ⟨hset, hidle, hnone⟩

theorem Mark.of_underWay (h : Mark s) (hunder : s.underWay ≠ 0) :
    (∀ i, s.callers i = .idle) ∧ s.underWay = 1 := by
  cases h with
  | free _ _ hnone => exact absurd hnone hunder
  | caller _ _ _ _ hnone => exact absurd hnone hunder
  | job _ hidle hone => exact ⟨hidle, hone⟩

theorem Mark.setState (h : Mark s) (state : IndicatorState) : Mark (s.setState state) := by
  have hshown : Mark { s with
      phase := (Sound.step s.phase state).1, shown := s.shown ++ [state] } := h.congr rfl rfl rfl
  unfold State.setState
  dsimp only
  cases (Sound.step s.phase state).2 with
  | none => exact hshown
  | some earned =>
    dsimp only
    split_ifs
    · refine hshown.congr (trySend_frame _ _).1 (trySend_frame _ _).2 ?_
      rw [underWay_trySend]
      simp [Job.isPreview]
    · exact hshown

theorem Mark.turn (h : Mark s) : Mark s.turn := by
  unfold State.turn
  split
  · exact h
  · -- A preview that the thread takes is still the one under way.
    rename_i job queue hthread hqueue
    refine h.congr rfl rfl ?_
    have hwaiting : Thread.waiting.isPreview = false := rfl
    simp only [underWay, hthread, hqueue, List.countP_cons, isPreview_start, hwaiting]
    simp
  · rename_i c hthread
    exact h.congr rfl rfl (by simp [underWay, hthread, Thread.isPreview])
  · rename_i set c left hthread
    exact h.congr rfl rfl (by simp [underWay, hthread, Thread.isPreview])
  · rename_i set hthread
    have hunder : s.underWay = s.queue.countP Job.isPreview + 1 := by
      rw [underWay, hthread]
      rfl
    obtain ⟨hidle, hone⟩ := h.of_underWay (by omega)
    refine .free rfl hidle ?_
    simp only [underWay, Thread.isPreview]
    simp only [Bool.false_eq_true, if_false]
    omega

section Callers

variable [DecidableEq ι]

theorem Mark.swap (h : Mark s) (i : ι) (set : SoundSet) : Mark (s.swap i set) := by
  unfold State.swap
  split_ifs with hflag
  · exact h
  · cases h with
    | free _ hidle hnone =>
      refine .caller i rfl ?_ (fun j hj => ?_) hnone
      · simp
      · exact (Function.update_of_ne hj _ _).trans (hidle j)
    | caller _ hset => exact absurd hset hflag
    | job hset => exact absurd hset hflag

theorem Mark.send (h : Mark s) {i : ι} {set : SoundSet} (hi : s.callers i = .marked set) :
    Mark (s.send i set) := by
  obtain ⟨hset, hidle, hnone⟩ := h.of_caller (i := i) (by rw [hi]; exact Caller.noConfusion)
  have hunder := underWay_trySend s (.preview set)
  obtain ⟨hflag, hcallers⟩ := trySend_frame s (.preview set)
  unfold State.send
  dsimp only
  cases hroom : (s.trySend (.preview set)).2 with
  | true =>
    refine .job (hflag.trans hset) (fun j => ?_) ?_
    · by_cases hj : j = i
      · subst hj
        simp
      · simp [hj, hcallers, hidle j hj]
    · rw [hroom, hnone] at hunder
      exact hunder
  | false =>
    refine .caller i (hflag.trans hset) ?_ (fun j hj => ?_) ?_
    · simp
    · simp [hj, hcallers, hidle j hj]
    · rw [hroom, hnone] at hunder
      exact hunder

theorem Mark.unmark (h : Mark s) {i : ι} (hi : s.callers i = .refused) : Mark (s.unmark i) := by
  obtain ⟨-, hidle, hnone⟩ := h.of_caller (i := i) (by rw [hi]; exact Caller.noConfusion)
  refine .free rfl (fun j => ?_) hnone
  unfold State.unmark
  by_cases hj : j = i
  · subst hj
    simp
  · simp [hj, hidle j hj]

theorem Mark.step (h : Mark s) (hst : Step s t) : Mark t := by
  cases hst with
  | setState state => exact h.setState state
  | setEnabled enabled => exact h.congr rfl rfl rfl
  | setLive live => exact h.congr rfl rfl rfl
  | swap i set hidle => exact h.swap i set
  | own hown =>
    cases hown with
    | send i set hmarked => exact h.send hmarked
    | unmark i hrefused => exact h.unmark hrefused
    | turn hbusy => exact h.turn

/-! ## The runs -/

/-- A daemon that was just started, with the set of its settings. -/
def spawned (live : SoundSet) (enabled : Bool) : State ι := { live, enabled }

variable {live : SoundSet} {enabled : Bool}

theorem account_of_reachable (hs : StepSystem.Reachable Step (spawned live enabled) s) :
    Account s :=
  StepSystem.reachable_induction hs
    ⟨rfl, fun _ h => absurd h List.not_mem_nil, Nat.zero_le _, rfl, List.Sublist.refl _⟩
    fun _ _ h hst => h.step hst

theorem mark_of_reachable (hs : StepSystem.Reachable Step (spawned live enabled) s) : Mark s :=
  StepSystem.reachable_induction hs (.free rfl (fun _ => rfl) rfl) fun _ _ h hst => h.step hst

/-- **What is heard.** Whatever order the steps come in, the jobs that were taken are played in
turn, each whole, a preview from the set that it names; what is still to come is on the thread or in
a queue that never exceeds its bound. The cues that were taken are cues of the states that the
indicator was shown, in their order, in which a start is never repeated and a stop ends a start. -/
theorem plays_in_turn (hs : StepSystem.Reachable Step (spawned live enabled) s) :
    s.played.map Prod.fst ++ s.rest = s.accepted.flatMap Job.sounds ∧
      (∀ sound ∈ s.played, ∀ set, sound.1.1 = some set → sound.2 = set) ∧
      s.queue.length ≤ BACKLOG ∧
      (s.accepted.filterMap Job.cue?).Sublist (cuesOf .idle s.shown) ∧
      InOrder none (cuesOf .idle s.shown) := by
  have h := account_of_reachable hs
  exact ⟨h.played, h.named, h.room, h.cues, inOrder_cuesOf (by simp) s.shown⟩

/-- A session that starts while a set is previewed, after one turn of the thread. -/
def previewed : State (Fin 1) :=
  ((((spawned .myna true).setState .recording).swap 0 .hum).send 0 .hum).turn

theorem reachable_previewed : StepSystem.Reachable Step (spawned .myna true) previewed := by
  refine (((Relation.ReflTransGen.single (.setState .recording)).tail
    (.swap 0 .hum ?_)).tail (.own (.send 0 .hum ?_))).tail (.own (.turn ?_))
  · exact .inr (List.cons_ne_nil _ _)
  · rfl
  · rfl

theorem plays_in_turn_previewed : previewed.accepted = [.cue .start, .preview .hum] ∧
    previewed.played.map Prod.fst ++ previewed.rest = previewed.accepted.flatMap Job.sounds :=
  ⟨rfl, (plays_in_turn reachable_previewed).1⟩

/-- **One preview at a time.** The flag is set exactly while one preview is under way: one caller is
between its `swap` and its answer, or one preview is queued or playing, and never two. -/
theorem one_preview (hs : StepSystem.Reachable Step (spawned live enabled) s) :
    (s.previewing = true ↔ (∃ i, s.callers i ≠ .idle) ∨ s.underWay = 1) ∧
      s.underWay ≤ 1 ∧
      (∀ i, s.callers i ≠ .idle → s.underWay = 0 ∧ ∀ j, s.callers j ≠ .idle → j = i) := by
  have h := mark_of_reachable hs
  refine ⟨?_, ?_, fun i hi => ?_⟩
  · cases h with
    | free hflag hidle hnone => simp [hflag, hidle, hnone]
    | caller i hflag hi _ _ => exact iff_of_true hflag (.inl ⟨i, hi⟩)
    | job hflag _ hone => exact iff_of_true hflag (.inr hone)
  · cases h with
    | free _ _ hnone => omega
    | caller _ _ _ _ hnone => omega
    | job _ _ hone => omega
  · obtain ⟨-, hidle, hnone⟩ := h.of_caller hi
    refine ⟨hnone, fun j hj => ?_⟩
    by_contra hne
    exact hj (hidle j hne)

/-! ## The flag is cleared -/

variable [Fintype ι]

/-- How many steps are still to come, if nothing more is asked of the player. -/
def left (s : State ι) : ℕ :=
  ∑ i, (s.callers i).left + (s.queue.map Job.left).sum + s.thread.left

theorem sum_left_update (callers : ι → Caller) (i : ι) (caller : Caller) :
    ∑ j, (Function.update callers i caller j).left + (callers i).left =
      ∑ j, (callers j).left + caller.left := by
  have hupdate : (fun j => (Function.update callers i caller j).left) =
      Function.update (fun j => (callers j).left) i caller.left := by
    funext j
    by_cases hj : j = i
    · subst hj
      simp
    · simp [hj]
  rw [hupdate, Finset.sum_update_of_mem (Finset.mem_univ i),
    ← Finset.sum_sdiff (Finset.subset_univ {i}) (f := fun j => (callers j).left),
    Finset.sum_singleton]
  omega

omit [DecidableEq ι] in
theorem left_trySend (s : State ι) (job : Job) :
    (s.trySend job).1.left = s.left + if (s.trySend job).2 then job.left else 0 := by
  obtain heq | ⟨-, heq⟩ := trySend_eq s job
  · simp [heq]
  · simp only [heq, left, List.map_append, List.sum_append, List.map_singleton, List.sum_singleton,
      if_true]
    omega

theorem left_own (hown : Own s t) : t.left < s.left := by
  cases hown with
  | send i set hmarked =>
    have hsum := sum_left_update (s.trySend (.preview set)).1.callers i
      (if (s.trySend (.preview set)).2 then .idle else .refused)
    have hsent := left_trySend s (.preview set)
    rw [(trySend_frame s _).2] at hsum
    unfold State.send left at *
    dsimp only at hsum hsent ⊢
    rw [(trySend_frame s _).2] at hsent ⊢
    rw [hmarked] at hsum
    cases hroom : (s.trySend (.preview set)).2 with
    | true =>
      rw [hroom] at hsum hsent
      simp only [if_true, Caller.left_marked, Caller.left_idle, Job.left] at hsum hsent ⊢
      omega
    | false =>
      rw [hroom] at hsum hsent
      simp only [Bool.false_eq_true, if_false, Caller.left_marked, Caller.left_refused]
        at hsum hsent ⊢
      omega
  | unmark i hrefused =>
    have hsum := sum_left_update s.callers i .idle
    rw [hrefused] at hsum
    unfold State.unmark left
    simp only [Caller.left_refused, Caller.left_idle] at hsum
    dsimp only
    omega
  | turn hbusy =>
    unfold State.turn
    split
    · rename_i hthread hqueue
      rcases hbusy with hbusy | hbusy
      · exact absurd hthread hbusy
      · exact absurd hqueue hbusy
    · rename_i job queue hthread hqueue
      simp only [left, hthread, hqueue, List.map_cons, List.sum_cons, Thread.left]
      cases job with
      | cue c =>
        simp only [Thread.start, Job.left]
        omega
      | preview set =>
        simp only [Thread.start, Job.left, PREVIEW, List.length_cons, List.length_nil]
        omega
    · rename_i c hthread
      simp [left, hthread, Thread.left]
    · rename_i set c rest hthread
      simp [left, hthread, Thread.left]
    · rename_i set hthread
      simp [left, hthread, Thread.left]

omit [Fintype ι] in
theorem reachable_own {init : State ι} (hs : StepSystem.Reachable Step init s)
    {run : ℕ → State ι} (hstart : run 0 = s) {n : ℕ} (hrun : ∀ i < n, Own (run i) (run (i + 1))) :
    StepSystem.Reachable Step init (run n) := by
  induction n with
  | zero => rwa [hstart]
  | succ n ih =>
    exact (ih fun i hi => hrun i (Nat.lt_succ_of_lt hi)).tail (.own (hrun n (Nat.lt_succ_self n)))

/-- **The flag is cleared.** Wherever a run has come to, the callers within `preview` and the thread
take no more steps by themselves than `left` counts; and where they have none left to take, the flag
is clear, every caller was answered, and all that was taken was played. -/
theorem settles (hs : StepSystem.Reachable Step (spawned live enabled) s)
    {run : ℕ → State ι} (hstart : run 0 = s) {n : ℕ}
    (hrun : ∀ i < n, Own (run i) (run (i + 1))) :
    n ≤ s.left ∧ ((∀ t, ¬ Own (run n) t) →
      (run n).previewing = false ∧ (∀ i, (run n).callers i = .idle) ∧
        (run n).played.map Prod.fst = (run n).accepted.flatMap Job.sounds) := by
  have hdrop : ∀ a b : State ι, Own a b → b.left < a.left := fun _ _ => left_own
  have hbound := StepSystem.run_add_measure_le hdrop hrun
  rw [hstart] at hbound
  have hreach := reachable_own hs hstart hrun
  refine ⟨by omega, fun hstuck => ?_⟩
  have hidle : ∀ i, (run n).callers i = .idle := by
    intro i
    cases hi : (run n).callers i with
    | idle => rfl
    | marked set => exact absurd (Own.send i set hi) (hstuck _)
    | refused => exact absurd (Own.unmark i hi) (hstuck _)
  have hthread : (run n).thread = .waiting := by
    by_contra hbusy
    exact hstuck _ (.turn (.inl hbusy))
  have hqueue : (run n).queue = [] := by
    by_contra hbusy
    exact hstuck _ (.turn (.inr hbusy))
  have hplayed := (account_of_reachable hreach).played
  have hunder : (run n).underWay = 0 := by
    rw [underWay, hthread, hqueue]
    rfl
  refine ⟨?_, hidle, ?_⟩
  · cases mark_of_reachable hreach with
    | free hflag => exact hflag
    | caller i _ hi => exact absurd (hidle i) hi
    | job _ _ hone => omega
  · rw [rest, hthread, hqueue] at hplayed
    simpa [Thread.rest] using hplayed

theorem one_preview_previewed : previewed.underWay = 1 ∧ previewed.previewing = true :=
  ⟨rfl, (one_preview reachable_previewed).1.mpr (.inr rfl)⟩

theorem settles_previewed : 6 ≤ previewed.left ∧ (turn^[6] previewed).previewing = false := by
  have hrun : ∀ i < 6, Own (turn^[i] previewed) (turn^[i + 1] previewed) := by
    intro i hi
    rw [Function.iterate_succ_apply']
    refine .turn ?_
    revert i
    decide
  have h := settles reachable_previewed (by rfl) hrun
  refine ⟨h.1, (h.2 fun t hown => ?_).1⟩
  have hidle : ∀ i, (turn^[6] previewed).callers i = .idle := by decide
  cases hown with
  | send i set hmarked => exact Caller.noConfusion ((hidle i).symm.trans hmarked)
  | unmark i hrefused => exact Caller.noConfusion ((hidle i).symm.trans hrefused)
  | turn hbusy => exact absurd hbusy (by decide)

end Callers

end State

end Sound

end Desktop

end Myna
