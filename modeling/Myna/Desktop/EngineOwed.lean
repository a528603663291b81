import Myna.Desktop.EngineHandbackRuns

/-!
# Myna — the user's input method is handed back

While ours is the global engine, the user is owed another: it is in the record, or on its way back
to the daemon, or an acquire is about to record it. What is in the record has an owner, unless the
last switch that an acquire asked for failed.

* **`Injector.Owed`** — what holds in a run that meets the conditions;
* **`input_method_handed_back`** — every run.
-/

namespace Myna

namespace Desktop

namespace Ibus

/-- A target that has handed back what it found, or is about to. -/
def TargetPc.retired : TargetPc → Bool
  | .hidingPreedit .. => true
  | .restoring .. => true
  | _ => false

namespace Injector

variable {first : String} {w w' : Injector}

/-- What an acquire knows: the user's engine, and ours. -/
def Knows (first : String) (w : Injector) : AcquirePc → Prop
  | .registering before _ => ∀ name, before = some name → name = first ∨ name = ENGINE_NAME
  | .switching a => ∀ name, a.displaced = some name → name = first ∨ name = ENGINE_NAME
  | .minted a _ => ∀ name, a.displaced = some name → name = first ∨ name = ENGINE_NAME
  | .answered a _ _ => ∀ name, a.displaced = some name → name = first ∨ name = ENGINE_NAME
  | .checked _ _ answer _ => ∀ name, answer = .ok (some name) →
    (name = first ∨ name = ENGINE_NAME) ∧ (name ≠ ENGINE_NAME → w.global ≠ ENGINE_NAME)
  | _ => True

/-- Where the engine that the user is owed is, while ours is global. -/
inductive Debt (first : String) (w : Injector) : Prop where
  | ours (h : first = ENGINE_NAME)
  | recorded (h : w.engine.displaced = some first)
  | restoring (lease : ℕ) (named : Named) (engine : String)
      (h : w.targets.get? lease = some (.restoring named engine))
  | switched (a : Switching) (lease : ℕ) (h : w.acquire = some (.answered a lease (.ok ())))
      (ha : a.displaced = some first) (hrecords : records a.displaced = true)

/-- Who hands back what is recorded. -/
inductive Owner (w : Injector) : Prop where
  | nobody (h : w.failed = true)
  | acquire (pc : AcquirePc) (h : w.acquire = some pc) (hlease : pc.lease.isSome = true)
  | target (pc : TargetPc) (h : w.targets.get? w.engine.lease.id = some pc)
      (hpc : pc.retired = false)
  | preedit (lease : ℕ) (named : Named) (found : Retired) (superseded : Bool)
      (h : w.targets.get? lease = some (.hidingPreedit named found superseded))

/-- Between any two steps of a run that meets the conditions, `first` being the engine that was
global before it. -/
structure Owed (first : String) (w : Injector) : Prop where
  global : w.global = first ∨ w.global = ENGINE_NAME
  record : ∀ name, w.engine.displaced = some name → name = first
  restoring : ∀ lease named engine, w.targets.get? lease = some (.restoring named engine) →
    engine = first
  acquire : ∀ pc, w.acquire = some pc → w.Knows first pc
  debt : w.global = ENGINE_NAME → w.Debt first
  owner : w.engine.displaced.isSome = true → w.Owner

theorem owed_init (first : String) : ({ global := first } : Injector).Owed first where
  global := .inl rfl
  record := nofun
  restoring := nofun
  acquire := nofun
  debt := .ours
  owner := nofun

/-! ### What a step changes -/

/-- The engine's state changes, and neither the lease nor the record. -/
theorem Owed.engine (h : w.Owed first) {engine : EngineState} (hid : engine.lease.id =
    w.engine.lease.id) (hdisplaced : engine.displaced = w.engine.displaced) :
    ({ w with engine } : Injector).Owed first where
  global := h.global
  record := by
    intro name hname
    exact h.record name (hdisplaced.symm.trans hname)
  restoring := h.restoring
  acquire := by
    intro pc hpc
    have hknows := h.acquire pc hpc
    cases pc <;> exact hknows
  debt := by
    intro hours
    cases h.debt hours with
    | ours hfirst => exact .ours hfirst
    | recorded hrecorded => exact .recorded (hdisplaced.trans hrecorded)
    | restoring lease named engine hget => exact .restoring lease named engine hget
    | switched a lease hacquire ha hrecords => exact .switched a lease hacquire ha hrecords
  owner := by
    intro hsome
    have hsome : engine.displaced.isSome = true := hsome
    rw [hdisplaced] at hsome
    cases h.owner hsome with
    | nobody hfailed => exact .nobody hfailed
    | acquire pc hpc hlease => exact .acquire pc hpc hlease
    | target pc hget hpc => exact .target pc ((congrArg _ hid).trans hget) hpc
    | preedit lease named found superseded hget => exact .preedit lease named found superseded hget

/-- Another engine took ours before this was noticed: nothing is to be handed back. -/
theorem Owed.forgets (h : w.Owed first) {engine : EngineState} (hglobal : w.global ≠ ENGINE_NAME)
    (hdisplaced : engine.displaced = none) : ({ w with engine } : Injector).Owed first where
  global := h.global
  record := by
    intro name hname
    cases hdisplaced.symm.trans hname
  restoring := h.restoring
  acquire := by
    intro pc hpc
    have hknows := h.acquire pc hpc
    cases pc <;> exact hknows
  debt := fun hours => absurd hours hglobal
  owner := by
    intro hsome
    have hsome : engine.displaced.isSome = true := hsome
    rw [hdisplaced] at hsome
    cases hsome

/-- The acquire goes on, or returns: what is recorded has an owner without its lease. -/
theorem Owed.withAcquire (h : w.Owed first) {acquire : Option AcquirePc}
    {returned : List (Except InjectError ℕ)} (hknows : ∀ pc, acquire = some pc → w.Knows first pc)
    (hanswered : ∀ a lease, w.acquire ≠ some (.answered a lease (.ok ())))
    (howner : ∀ pc, w.acquire = some pc → pc.lease.isSome = true →
      w.engine.displaced.isSome = true → ({ w with acquire, returned } : Injector).Owner) :
    ({ w with acquire, returned } : Injector).Owed first where
  global := h.global
  record := h.record
  restoring := h.restoring
  acquire := by
    intro pc hpc
    have hknows := hknows pc hpc
    cases pc <;> exact hknows
  debt := by
    intro hours
    cases h.debt hours with
    | ours hfirst => exact .ours hfirst
    | recorded hrecorded => exact .recorded hrecorded
    | restoring lease named engine hget => exact .restoring lease named engine hget
    | switched a lease hacquire ha hrecords => exact absurd hacquire (hanswered a lease)
  owner := by
    intro hsome
    cases h.owner hsome with
    | nobody hfailed => exact .nobody hfailed
    | acquire pc hpc hlease => exact howner pc hpc hlease hsome
    | target pc hget hpc => exact .target pc hget hpc
    | preedit lease named found superseded hget => exact .preedit lease named found superseded hget

/-- The acquire has no lease. -/
theorem Owed.acquires (h : w.Owed first) {acquire : Option AcquirePc}
    {returned : List (Except InjectError ℕ)} (hlease : ∀ pc, w.acquire = some pc → pc.lease = none)
    (hknows : ∀ pc, acquire = some pc → w.Knows first pc) :
    ({ w with acquire, returned } : Injector).Owed first := by
  apply h.withAcquire hknows
  · intro a lease hanswered
    cases hlease _ hanswered
  · intro pc hpc hsome
    rw [hlease pc hpc] at hsome
    cases hsome

/-- A target goes on, and hands nothing back yet. -/
theorem Owed.setTarget (h : w.Owed first) (lease : ℕ) (pc : TargetPc)
    (hold : ∀ pc, w.targets.get? lease = some pc → pc.retired = false)
    (hpc : ∀ named engine, pc ≠ .restoring named engine) :
    ({ w with targets := w.targets.set lease pc } : Injector).Owed first := by
  have hset : (w.targets.set lease pc).get? lease = some pc := by
    rw [Dict.get?_set, if_pos rfl]
  have hne : ∀ other, lease ≠ other →
      (w.targets.set lease pc).get? other = w.targets.get? other := by
    intro other hne
    rw [Dict.get?_set, if_neg hne]
  refine ⟨h.global, h.record, ?_, ?_, ?_, ?_⟩
  · intro other named engine hget
    by_cases heq : lease = other
    · subst heq
      exact absurd (Option.some.inj (hset.symm.trans hget)) (hpc named engine)
    · exact h.restoring other named engine ((hne other heq).symm.trans hget)
  · intro pc' hpc'
    have hknows := h.acquire pc' hpc'
    cases pc' <;> exact hknows
  · intro hours
    cases h.debt hours with
    | ours hfirst => exact .ours hfirst
    | recorded hrecorded => exact .recorded hrecorded
    | restoring other named engine hget =>
      by_cases heq : lease = other
      · subst heq
        cases hold _ hget
      · exact .restoring other named engine ((hne other heq).trans hget)
    | switched a lease hacquire ha hrecords => exact .switched a lease hacquire ha hrecords
  · intro hsome
    cases h.owner hsome with
    | nobody hfailed => exact .nobody hfailed
    | acquire pc' hpc' hlease => exact .acquire pc' hpc' hlease
    | target pc' hget hpc' =>
      by_cases heq : lease = w.engine.lease.id
      · subst heq
        -- the owner is the target that goes on
        cases pc with
        | restoring named engine => exact absurd rfl (hpc named engine)
        | hidingPreedit named found superseded => exact .preedit _ named found superseded hset
        | _ => exact .target _ hset rfl
      · exact .target pc' ((hne _ heq).trans hget) hpc'
    | preedit other named found superseded hget =>
      by_cases heq : lease = other
      · subst heq
        cases hold _ hget
      · exact .preedit other named found superseded ((hne other heq).trans hget)

/-- A target is gone, which did not have what is recorded to hand back. -/
theorem Owed.removeTarget (h : w.Owed first) {lease : ℕ} {pc : TargetPc}
    (hget : w.targets.get? lease = some pc)
    (hdebt : ∀ named engine, pc = .restoring named engine → w.global = ENGINE_NAME →
      first = ENGINE_NAME)
    (howner : w.engine.displaced.isSome = true → pc.retired = false → w.engine.lease.id ≠ lease)
    (hpreedit : w.engine.displaced.isSome = true → ∀ named found superseded,
      pc ≠ .hidingPreedit named found superseded) :
    ({ w with targets := w.targets.remove lease } : Injector).Owed first := by
  have hne : ∀ other, lease ≠ other →
      (w.targets.remove lease).get? other = w.targets.get? other := by
    intro other hne
    rw [Dict.get?_remove, if_neg hne]
  refine ⟨h.global, h.record, ?_, ?_, ?_, ?_⟩
  · intro other named engine hother
    have hother : (w.targets.remove lease).get? other = some (.restoring named engine) := hother
    rw [Dict.get?_remove] at hother
    split at hother
    · cases hother
    · exact h.restoring other named engine hother
  · intro pc' hpc'
    have hknows := h.acquire pc' hpc'
    cases pc' <;> exact hknows
  · intro hours
    cases h.debt hours with
    | ours hfirst => exact .ours hfirst
    | recorded hrecorded => exact .recorded hrecorded
    | restoring other named engine hother =>
      by_cases heq : lease = other
      · subst heq
        exact .ours (hdebt named engine (Option.some.inj (hget.symm.trans hother)) hours)
      · exact .restoring other named engine ((hne other heq).trans hother)
    | switched a lease hacquire ha hrecords => exact .switched a lease hacquire ha hrecords
  · intro hsome
    cases h.owner hsome with
    | nobody hfailed => exact .nobody hfailed
    | acquire pc' hpc' hlease => exact .acquire pc' hpc' hlease
    | target pc' hother hpc' =>
      by_cases heq : lease = w.engine.lease.id
      · subst heq
        cases hget.symm.trans hother
        exact absurd rfl (howner hsome hpc')
      · exact .target pc' ((hne _ heq).trans hother) hpc'
    | preedit other named found superseded hother =>
      by_cases heq : lease = other
      · subst heq
        cases hget.symm.trans hother
        exact absurd rfl (hpreedit hsome named found superseded)
      · exact .preedit other named found superseded ((hne _ heq).trans hother)

/-- The daemon makes an engine global that an acquire or a release asked for. -/
theorem Owed.setGlobal (h : w.Owed first) {name : String} {recorded unseen : Bool}
    (hname : name = first ∨ name = ENGINE_NAME) (hdebt : name = ENGINE_NAME → w.Debt first)
    (hchecked : ∀ a lease answer asked, w.acquire = some (.checked a lease answer asked) →
      name = first) : (w.setGlobal name recorded unseen).Owed first where
  global := hname
  record := h.record
  restoring := h.restoring
  acquire := by
    intro pc hpc
    have hknows := h.acquire pc hpc
    cases pc with
    | checked a lease answer asked =>
      intro known hanswer
      refine ⟨(hknows known hanswer).1, fun hne hours => ?_⟩
      have hfirst := hchecked a lease answer asked hpc
      cases (hknows known hanswer).1 with
      | inl hknown => exact hne (hknown.trans (hfirst.symm.trans hours))
      | inr hknown => exact hne hknown
    | _ => exact hknows
  debt := by
    intro hours
    cases hdebt hours with
    | ours hfirst => exact .ours hfirst
    | recorded hrecorded => exact .recorded hrecorded
    | restoring lease named engine hget => exact .restoring lease named engine hget
    | switched a lease hacquire ha hrecords => exact .switched a lease hacquire ha hrecords
  owner := by
    intro hsome
    cases h.owner hsome with
    | nobody hfailed => exact .nobody hfailed
    | acquire pc hpc hlease => exact .acquire pc hpc hlease
    | target pc hget hpc => exact .target pc hget hpc
    | preedit lease named found superseded hget => exact .preedit lease named found superseded hget

/-! ### The steps -/

/-- The daemon names the user's engine, or ours. -/
theorem Owed.known (h : w.Owed first) {answer : Except CallError (Option String)} {name : String}
    (htruthful : w.truthful answer = true) (hanswer : answer = .ok (some name)) :
    name = first ∨ name = ENGINE_NAME := by
  subst hanswer
  rw [show name = w.global from of_decide_eq_true htruthful]
  exact h.global

theorem Owed.answered (h : w.Owed first) {answer : Except CallError (Option String)} {late : Bool}
    (htruthful : w.truthful answer = true) (hstep : w.answered answer late = some w') :
    w'.Owed first := by
  have hknown : ∀ name, globalEngineName answer = some name → name = first ∨ name = ENGINE_NAME :=
    fun name hname => h.known htruthful (globalEngineName_name hname)
  unfold Injector.answered at hstep
  dsimp only at hstep
  split at hstep
  · next hacquire =>
    cases hstep
    apply h.acquires
    · intro pc hpc
      cases hacquire.symm.trans hpc
      rfl
    · intro pc hpc
      cases hpc
      exact hknown
  · next a err hacquire =>
    have hlease : ∀ pc, w.acquire = some pc → pc.lease = none := by
      intro pc hpc
      cases hacquire.symm.trans hpc
      rfl
    split_ifs at hstep
    · cases hstep
      exact h
    · cases hstep
      apply h.acquires hlease
      intro pc hpc
      cases hpc
      exact hknown
    · cases hstep
      exact h.acquires hlease fun _ hpc => nomatch hpc
  · next a lease hacquire =>
    cases hstep
    apply h.withAcquire
    · intro pc hpc
      cases hpc
      intro name hanswer
      refine ⟨h.known htruthful hanswer, fun hne => ?_⟩
      subst hanswer
      rwa [show name = w.global from of_decide_eq_true htruthful] at hne
    · intro a' lease' hanswered
      cases hacquire.symm.trans hanswered
    · intro _ _ _ _
      exact .acquire _ rfl rfl
  · cases hstep

theorem Owed.registered (h : w.Owed first) {result : Except CallError Unit}
    (hstep : w.registered result = some w') : w'.Owed first := by
  unfold Injector.registered at hstep
  split at hstep
  · next before asked hacquire =>
    have hknows := h.acquire _ hacquire
    have hlease : ∀ pc, w.acquire = some pc → pc.lease = none := by
      intro pc hpc
      cases hacquire.symm.trans hpc
      rfl
    split at hstep
    · cases hstep
      apply h.acquires hlease
      intro pc hpc
      cases hpc
      exact hknows
    · cases hstep
      exact h.acquires hlease fun _ hpc => nomatch hpc
  · cases hstep

theorem Owed.switched (h : w.Owed first) {result : Except CallError Unit}
    (hmeets : w.meets (.switched result) = true) (hstep : w.switched result = some w') :
    w'.Owed first := by
  unfold Injector.switched at hstep
  split at hstep
  · next a lease hacquire =>
    have hknows := h.acquire _ hacquire
    have hanswered : ({ w with acquire := some (.answered a lease result) } : Injector).Owed
        first := by
      apply h.withAcquire
      · intro pc hpc
        cases hpc
        exact hknows
      · intro a' lease' hanswered
        cases hacquire.symm.trans hanswered
      · intro _ _ _ _
        exact .acquire _ rfl rfl
    dsimp only at hstep
    split at hstep
    · cases hstep
      apply hanswered.setGlobal (.inr rfl)
      · intro _
        by_cases hours : w.global = ENGINE_NAME
        · exact hanswered.debt hours
        · -- the acquire is about to record the engine that it displaced
          have hfirst : w.global = first := h.global.resolve_right hours
          dsimp only [meets] at hmeets
          rw [hacquire] at hmeets
          obtain ⟨hdisplaced, hempty⟩ := (of_decide_eq_true hmeets).resolve_left hours
          refine .switched a lease rfl (hdisplaced.trans (congrArg some hfirst)) ?_
          rw [hdisplaced]
          simp [records, hempty, hours]
      · intro a' lease' answer asked hchecked
        cases hchecked
    · cases hstep
      exact hanswered
  · cases hstep

/-- A lease is minted: what is recorded is its acquire's to hand back. -/
theorem Owed.mints (h : w.Owed first) {a : Switching} {engine : EngineState} {lease : ℕ}
    (hacquire : w.acquire = some (.switching a))
    (hdisplaced : engine.displaced = w.engine.displaced) :
    ({ w with engine, acquire := some (.minted a lease) } : Injector).Owed first where
  global := h.global
  record := by
    intro name hname
    exact h.record name (hdisplaced.symm.trans hname)
  restoring := h.restoring
  acquire := by
    intro pc hpc
    have hknows := h.acquire _ hacquire
    cases hpc
    exact hknows
  debt := by
    intro hours
    cases h.debt hours with
    | ours hfirst => exact .ours hfirst
    | recorded hrecorded => exact .recorded (hdisplaced.trans hrecorded)
    | restoring lease named engine hget => exact .restoring lease named engine hget
    | switched a lease hanswered ha hrecords => cases hacquire.symm.trans hanswered
  owner := fun _ => .acquire _ rfl rfl

/-- What an acquire records is the user's engine. -/
theorem Owed.records (h : w.Owed first) {a : Switching} {lease : ℕ}
    {result : Except CallError Unit} (hacquire : w.acquire = some (.answered a lease result))
    (hrecords : Ibus.records a.displaced = true) : a.displaced = some first := by
  have hknows := h.acquire _ hacquire
  cases hname : a.displaced with
  | none =>
    rw [hname] at hrecords
    cases hrecords
  | some name =>
    cases hknows name hname with
    | inl hfirst => rw [hfirst]
    | inr hours =>
      rw [hname, hours] at hrecords
      cases hrecords

/-- The acquire's switch was answered: it records what that displaced, and owns it. -/
theorem Owed.displaces (h : w.Owed first) {a : Switching} {lease recorded : ℕ}
    (hacquire : w.acquire = some (.answered a lease (.ok ()))) :
    ({ w with
      engine := w.engine.displace a.displaced
      acquire := some (.focusing a lease)
      recorded
      failed := false } : Injector).Owed first where
  global := h.global
  record := by
    intro name hname
    have hname : (w.engine.displace a.displaced).displaced = some name := hname
    rw [EngineState.displace_eq] at hname
    split_ifs at hname with hrecords
    · exact Option.some.inj (hname.symm.trans (h.records hacquire hrecords))
    · exact h.record name hname
  restoring := h.restoring
  acquire := by
    intro pc hpc
    cases hpc
    trivial
  debt := by
    intro hours
    rw [EngineState.displace_eq]
    by_cases hrecords : Ibus.records a.displaced = true
    · rw [if_pos hrecords]
      exact .recorded (h.records hacquire hrecords)
    · rw [if_neg hrecords]
      cases h.debt hours with
      | ours hfirst => exact .ours hfirst
      | recorded hrecorded => exact .recorded hrecorded
      | restoring lease named engine hget => exact .restoring lease named engine hget
      | switched a' lease' hanswered ha hrecords' =>
        cases hacquire.symm.trans hanswered
        exact absurd hrecords' hrecords
  owner := fun _ => .acquire _ rfl rfl

/-- The acquire's switch failed: nobody may be left with what is recorded. -/
theorem Owed.fails (h : w.Owed first) {a : Switching} {lease : ℕ} {e : CallError}
    (hacquire : w.acquire = some (.answered a lease (.error e))) (err : InjectError) :
    ({ w with acquire := some (.polling a err), failed := true } : Injector).Owed first where
  global := h.global
  record := h.record
  restoring := h.restoring
  acquire := by
    intro pc hpc
    cases hpc
    trivial
  debt := by
    intro hours
    cases h.debt hours with
    | ours hfirst => exact .ours hfirst
    | recorded hrecorded => exact .recorded hrecorded
    | restoring lease named engine hget => exact .restoring lease named engine hget
    | switched a' lease' hanswered ha hrecords => cases hacquire.symm.trans hanswered
  owner := fun _ => .nobody rfl

/-- The acquire's target is released: it has the lease now. -/
theorem Owed.refuses (h : w.Owed first) (hinv : w.Inv) {pc : AcquirePc} {lease : ℕ}
    (hacquire : w.acquire = some pc) (hlease : pc.lease = some lease)
    (hanswered : ∀ a result, pc ≠ .answered a lease result) (err : InjectError) :
    (w.refuses lease err).Owed first := by
  obtain ⟨hid, hnone⟩ := (hinv.acquire pc hacquire).2 lease hlease
  have hset := h.setTarget lease (.asking true) (fun _ hget => nomatch hnone.symm.trans hget) nofun
  apply hset.withAcquire
  · intro pc' hpc'
    cases hpc'
    trivial
  · intro a lease' heq
    cases hacquire.symm.trans heq
    cases hlease
    exact hanswered _ _ rfl
  · intro _ _ _ _
    refine .target (.asking true) ?_ rfl
    show (w.targets.set lease (.asking true)).get? w.engine.lease.id = _
    rw [Dict.get?_set, if_pos hid]

theorem Owed.acquireActs (h : w.Owed first) (hinv : w.Inv) (hstep : w.acquireActs = some w') :
    w'.Owed first := by
  unfold Injector.acquireActs at hstep
  dsimp only at hstep
  split at hstep
  · next a hacquire =>
    cases hstep
    exact h.mints hacquire rfl
  · next a lease hacquire =>
    cases hstep
    exact h.displaces hacquire
  · next a lease e hacquire =>
    cases hstep
    obtain ⟨htame, hdisplaced⟩ := w.engine.retire_tame lease
    exact (h.engine htame.id hdisplaced).fails hacquire _
  · next a lease hacquire =>
    cases hstep
    obtain ⟨htame, hdisplaced⟩ := w.engine.unfocus_tame lease
    apply (h.engine htame.id hdisplaced).withAcquire
    · intro pc hpc
      cases hpc
      trivial
    · intro a' lease' hanswered
      cases hacquire.symm.trans hanswered
    · intro _ _ _ _
      exact .acquire _ rfl rfl
  · next a lease answer asked hacquire =>
    have hknows := h.acquire _ hacquire
    split at hstep
    · next now hnow =>
      split_ifs at hstep with hours hclaims
      · cases hstep
        apply h.withAcquire
        · intro pc hpc
          cases hpc
          trivial
        · intro a' lease' hanswered
          cases hacquire.symm.trans hanswered
        · intro _ _ _ _
          exact .acquire _ rfl rfl
      · cases hstep
        cases now with
        | none => cases hclaims
        | some name =>
          obtain ⟨hname, hglobal⟩ := hknows name (globalEngineOf_name hnow)
          have hglobal := hglobal fun heq => hours (congrArg some heq)
          have hforgets := h.forgets hglobal (w.engine.taken_tame lease).2
          apply hforgets.withAcquire
          · intro pc hpc
            cases hpc
            intro known hknown
            cases hknown
            exact hname
          · intro a' lease' hanswered
            cases hacquire.symm.trans hanswered
          · intro _ _ _ hsome
            have hsome : (w.engine.taken lease).displaced.isSome = true := hsome
            rw [(w.engine.taken_tame lease).2] at hsome
            cases hsome
      · cases hstep
        exact h.refuses hinv hacquire rfl (fun _ _ heq => nomatch heq) _
    · cases hstep
      exact h.refuses hinv hacquire rfl (fun _ _ heq => nomatch heq) _
  · next lease hacquire =>
    split_ifs at hstep
    · cases hstep
      exact h.refuses hinv hacquire rfl (fun _ _ heq => nomatch heq) _
    · cases hstep
      exact h.refuses hinv hacquire rfl (fun _ _ heq => nomatch heq) _
    · cases hstep
      exact h.refuses hinv hacquire rfl (fun _ _ heq => nomatch heq) _
    · cases hstep
      obtain ⟨hid, hnone⟩ := (hinv.acquire _ hacquire).2 lease rfl
      have hset := h.setTarget lease .idle (fun _ hget => nomatch hnone.symm.trans hget) nofun
      apply hset.withAcquire
      · intro pc hpc
        cases hpc
      · intro a lease' hanswered
        cases hacquire.symm.trans hanswered
      · intro _ _ _ _
        -- the caller has the lease now
        refine .target .idle ?_ rfl
        show (w.targets.set lease .idle).get? w.engine.lease.id = _
        rw [Dict.get?_set, if_pos hid]
  · next lease err hacquire =>
    have hlease : ∀ pc, w.acquire = some pc → pc.lease = none := by
      intro pc hpc
      cases hacquire.symm.trans hpc
      rfl
    split at hstep
    · cases hstep
      exact h.acquires hlease fun _ hpc => nomatch hpc
    · cases hstep
  · cases hstep

/-- A target that has retired hands back what is recorded, unless its lease was superseded. -/
theorem Owed.reclaim (h : w.Owed first) {lease : ℕ} {pc : TargetPc} (named : Named)
    {found : Retired} (superseded : Bool) (hget : w.targets.get? lease = some pc)
    (hpc : ∀ named engine, pc ≠ .restoring named engine)
    (hfound : found = .superseded → pc.retired = false ∧ w.engine.lease.id ≠ lease) :
    (w.reclaim lease named found superseded).Owed first := by
  unfold Injector.reclaim
  split
  · next engine hengine =>
    obtain ⟨-, hsome, hnone⟩ := EngineState.reclaim_some hengine
    have hset : (w.targets.set lease (.restoring named engine)).get? lease =
        some (.restoring named engine) := by
      rw [Dict.get?_set, if_pos rfl]
    refine ⟨h.global, ?_, ?_, ?_, ?_, ?_⟩
    · intro name hname
      cases hnone.symm.trans hname
    · intro other named' engine' hother
      have hother : (w.targets.set lease (.restoring named engine)).get? other =
          some (.restoring named' engine') := hother
      rw [Dict.get?_set] at hother
      split at hother
      · cases hother
        exact h.record engine hsome
      · exact h.restoring other named' engine' hother
    · intro pc' hpc'
      have hknows := h.acquire pc' hpc'
      cases pc' <;> exact hknows
    · -- whatever the user was owed, this is it
      intro _
      exact .restoring lease named engine hset
    · intro hsome'
      have hsome' : (w.engine.reclaim found).2.displaced.isSome = true := hsome'
      rw [hnone] at hsome'
      cases hsome'
  · next hengine =>
    obtain ⟨hsame, hnone⟩ := EngineState.reclaim_none hengine
    have hsuperseded : (w.engine.reclaim found).2.displaced.isSome = true →
        found = .superseded := by
      intro hsome
      rw [hsame] at hsome
      refine hnone.resolve_right fun hnone => ?_
      rw [hnone] at hsome
      cases hsome
    have htame := w.engine.reclaim_tame found
    apply (h.engine htame.id hsame).removeTarget hget
    · intro named' engine' heq
      exact absurd heq (hpc named' engine')
    · intro hsome _
      exact fun hid => (hfound (hsuperseded hsome)).2 (htame.id.symm.trans hid)
    · intro hsome named' found' superseded' heq
      have hretired := (hfound (hsuperseded hsome)).1
      rw [heq] at hretired
      cases hretired

theorem Owed.goes (h : w.Owed first) (hinv : w.Inv) {lease : ℕ} {preedit : Bool}
    (hmeets : w.meets (.goes lease preedit) = true) (hstep : w.goes lease preedit = some w') :
    w'.Owed first := by
  have hold : ∀ {pc}, w.targets.get? lease = some pc → pc.retired = false →
      ∀ pc', w.targets.get? lease = some pc' → pc'.retired = false := by
    intro pc hget hpc pc' hget'
    cases hget.symm.trans hget'
    exact hpc
  unfold Injector.goes at hstep
  split at hstep
  · next release answer asked hget =>
    dsimp only [meets] at hmeets
    rw [hget] at hmeets
    dsimp only at hstep
    cases hstep
    have hnext : ∀ named engine,
        (if release then .settling (namedOf answer asked) else .idle : TargetPc) ≠
          .restoring named engine := by
      intro named engine
      cases release <;> nofun
    split
    · next hother =>
      have hglobal : w.global ≠ ENGINE_NAME := by
        simpa [hother] using hmeets
      have hforgets := h.forgets hglobal (w.engine.taken_tame lease).2
      exact hforgets.setTarget lease _ (hold hget rfl) hnext
    · exact h.setTarget lease _ (hold hget rfl) hnext
  · next named hget =>
    split_ifs at hstep
    cases hstep
    exact h.setTarget lease _ (hold hget rfl) nofun
  · next named hget =>
    obtain ⟨hsuperseded, -⟩ := w.engine.retire_found lease
    obtain ⟨htame, hdisplaced⟩ := w.engine.retire_tame lease
    have hretired := h.engine htame.id hdisplaced
    dsimp only at hstep
    split_ifs at hstep with hpreedit
    · cases hstep
      exact hretired.setTarget lease _ (hold hget rfl) nofun
    · cases hstep
      apply hretired.reclaim named _ hget nofun
      intro hfound
      exact ⟨rfl, fun hid => hsuperseded.mp hfound (htame.id.symm.trans hid)⟩
  · next named found superseded hget =>
    cases hstep
    apply h.reclaim named superseded hget nofun
    -- a lease that was superseded hides no preedit
    obtain ⟨-, -, -, hheld, -⟩ := hinv.targets lease _ hget
    intro hfound
    cases hheld.symm.trans hfound
  · cases hstep

theorem Owed.restored (h : w.Owed first) {lease : ℕ} {result : Except CallError Unit}
    (hmeets : w.meets (.restored lease result) = true)
    (hstep : w.restored lease result = some w') : w'.Owed first := by
  unfold Injector.restored at hstep
  split at hstep
  · next named engine hget =>
    have hfirst := h.restoring lease named engine hget
    dsimp only at hstep
    split at hstep
    · cases hstep
      have hback : (w.setGlobal engine false (named.asked ≠ some w.switches)).Owed first :=
        h.setGlobal (.inl hfirst) (fun hours => .ours (hfirst.symm.trans hours))
          fun _ _ _ _ _ => hfirst
      apply hback.removeTarget hget
      · intro _ _ _ hours
        exact hfirst.symm.trans hours
      · intro _ hretired
        cases hretired
      · nofun
    · cases hmeets
  · cases hstep

/-- Whatever happens next. -/
theorem Owed.step (h : w.Owed first) (hinv : w.Inv) {e : Event} (hmeets : w.meets e = true)
    (hstep : w.step e = some w') : w'.Owed first := by
  cases e with
  | lands landing =>
    dsimp only [Injector.step] at hstep
    split_ifs at hstep with houtside
    cases hstep
    obtain ⟨htame, hdisplaced⟩ := EngineState.land_tame (s := w.engine) houtside
    exact h.engine htame.id hdisplaced
  | other name => cases hmeets
  | acquire =>
    dsimp only [Injector.step] at hstep
    split_ifs at hstep with hnone
    cases hstep
    apply h.acquires
    · intro pc hpc
      cases hnone.symm.trans hpc
    · intro pc hpc
      cases hpc
      trivial
  | answer answer late =>
    dsimp only [Injector.step] at hstep
    split_ifs at hstep with htruthful
    exact h.answered htruthful hstep
  | registered result => exact h.registered hstep
  | switched result => exact h.switched hmeets hstep
  | acquireActs => exact h.acquireActs hinv hstep
  | commit lease =>
    dsimp only [Injector.step] at hstep
    split_ifs at hstep with hget
    cases hstep
    apply h.setTarget lease (.asking false) ?_ (by simp)
    intro pc hpc
    cases hget.symm.trans hpc
    rfl
  | release lease =>
    dsimp only [Injector.step] at hstep
    split_ifs at hstep with hget
    cases hstep
    apply h.setTarget lease (.asking true) ?_ (by simp)
    intro pc hpc
    cases hget.symm.trans hpc
    rfl
  | wrote lease =>
    dsimp only [Injector.step] at hstep
    split_ifs at hstep
    cases hstep
    obtain ⟨htame, hdisplaced⟩ := w.engine.wrote_tame lease
    exact h.engine htame.id hdisplaced
  | told lease answer =>
    dsimp only [Injector.step] at hstep
    split at hstep
    · next release hget =>
      split_ifs at hstep with htruthful
      cases hstep
      apply h.setTarget lease (.told release answer w.switches) ?_ (by simp)
      intro pc hpc
      cases hget.symm.trans hpc
      rfl
    · cases hstep
  | goes lease preedit => exact h.goes hinv hmeets hstep
  | restored lease result => exact h.restored hmeets hstep

/-- In any order. -/
theorem Owed.run (h : w.Owed first) (hinv : w.Inv) {events : List Event}
    (hmeets : w.Meets events = true)
    (hrun : w.run events = some w') : w'.Owed first := by
  induction events generalizing w with
  | nil =>
    cases hrun
    exact h
  | cons e events ih =>
    obtain ⟨w₁, hstep, hrun⟩ := Option.bind_eq_some_iff.mp hrun
    obtain ⟨hmeet, hmeets⟩ := (Bool.and_eq_true _ _).mp hmeets
    rw [hstep] at hmeets
    exact ih (h.step hinv hmeet hstep) (hinv.step hstep) hmeets hrun

end Injector

/-! ## The input method is handed back -/

/-- What becomes of the engines that were displaced, `first` having been global before. -/
structure HandedBack (first : String) (events : List Event) (w : Injector) : Prop where
  record : w.engine.displaced ≠ some "" ∧ w.engine.displaced ≠ some ENGINE_NAME
  once : (w.restores.map Restore.record).Nodup
  superseded : ∀ r ∈ w.restores, r.superseded = false
  undone : ∀ u ∈ w.undone, u.recorded = true ∨ u.unseen = true
  back : ({ global := first } : Injector).Meets events = true → w.quiet = true →
    w.failed = false → w.global = first ∧ w.engine.displaced = none

/-- An acquire that is told of a global engine, makes ours global and gets its field. -/
def acquireEvents (before : Except CallError (Option String)) : List Event :=
  [.acquire, .answer before false, .registered (.ok ()), .acquireActs, .switched (.ok ()),
    .acquireActs, .lands (.focus (.focusIn (some ⟨"/field", "editor"⟩))), .acquireActs,
    .answer (.ok (some ENGINE_NAME)) false, .acquireActs, .acquireActs]

/-- A release that finds ours global, as far as a restore. -/
def releaseEvents (lease : ℕ) : List Event :=
  [.release lease, .told lease (.ok (some ENGINE_NAME)), .goes lease false, .goes lease false,
    .goes lease false]

/-- A second acquire supersedes the first one's target. -/
def handedOver : List Event :=
  List.flatten [acquireEvents (.ok (some "xkb:us")), acquireEvents (.ok (some ENGINE_NAME)),
    releaseEvents 1, releaseEvents 2, [.restored 2 (.ok ())]]

/-- Whether all is released at the end of a run, which engine is global then, and which recorded. -/
def endOf (events : List Event) : Option (Bool × String × Option String) :=
  (({ global := "xkb:us" } : Injector).run events).map fun w =>
    (w.quiet, w.global, w.engine.displaced)

/-- The global engine cannot be read. -/
def unread : List Event :=
  List.flatten [acquireEvents (.error (.other "timed out")), releaseEvents 1]

/-- A switch fails while a target waits for its release. -/
def switchFailed : List Event :=
  List.flatten [acquireEvents (.ok (some "xkb:us")),
    [.acquire, .answer (.ok (some ENGINE_NAME)) false, .registered (.ok ()), .acquireActs,
      .switched (.error (.other "timed out")), .acquireActs,
      .answer (.ok (some ENGINE_NAME)) true],
    releaseEvents 1]

/-- A restore lands after the next acquire's read. -/
def restoredLate : List Event :=
  List.flatten [acquireEvents (.ok (some "xkb:us")), releaseEvents 1,
    [.acquire, .answer (.ok (some ENGINE_NAME)) false, .restored 1 (.ok ())],
    (acquireEvents (.ok (some ENGINE_NAME))).drop 2, releaseEvents 2]

/-- A restore fails. -/
def restoreFailed : List Event :=
  List.flatten [acquireEvents (.ok (some "xkb:us")), releaseEvents 1,
    [.restored 1 (.error (.other "timed out"))]]

/-- A commit acts on what it was told before the next acquire switched. -/
def toldBefore : List Event :=
  List.flatten [acquireEvents (.ok (some "xkb:us")), releaseEvents 1,
    acquireEvents (.ok (some ENGINE_NAME)),
    [.restored 1 (.ok ()), .commit 2, .told 2 (.ok (some "xkb:us"))],
    acquireEvents (.ok (some "xkb:us")), [.goes 2 false], releaseEvents 2, releaseEvents 3]

/-- Another party makes an engine global after an acquire's read. -/
def otherBefore : List Event :=
  [.acquire, .answer (.ok (some "xkb:us")) false, .other "xkb:de", .registered (.ok ()),
    .acquireActs, .switched (.ok ())]

end Ibus

end Desktop

end Myna
