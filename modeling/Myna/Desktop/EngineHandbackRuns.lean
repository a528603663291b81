import Myna.Desktop.EngineHandback
import Myna.Desktop.IbusTargetHeld

/-!
# Myna — every run of acquires and releases

Who holds the current lease hands the displaced engine back, so each is handed back once, and by no
target that a later lease has superseded.

* **`EngineState.Tame`** — what leaves the lease with its owner;
* **`Injector.Inv`** — what holds between any two steps of a run.
-/

namespace Myna

namespace Desktop

namespace Ibus

/-! ## What leaves the lease with its owner -/

/-- The current lease is the same, and a record is at most consumed. -/
structure EngineState.Tame (s s' : EngineState) : Prop where
  onward : s.Onward s'
  next : s'.nextLease = s.nextLease
  id : s'.lease.id = s.lease.id
  displaced : s'.displaced = s.displaced ∨ s'.displaced = none

namespace EngineState

variable {s : EngineState}

theorem focus_displaced (change : FocusChange) : (s.focus change).displaced = s.displaced := by
  have hnote : (s.noteClient change).displaced = s.displaced := by
    unfold noteClient
    split
    · split <;> rfl
    · rfl
  unfold focus
  dsimp only
  split
  · split
    · exact hnote
    · unfold expire
      split <;> exact hnote
  · exact hnote

theorem activated_tame (id : ℕ) : s.Tame (s.activated id) := by
  refine ⟨activated_onward id, ?_, ?_, .inl ?_⟩ <;> unfold EngineState.activated
  · split <;> rfl
  · split
    · exact (World.activated_lease _ _).1
    · rfl
  · split <;> rfl

/-- What comes from outside leaves the lease and the record. -/
theorem land_tame {landing : Landing} (houtside : landing.outside = true) :
    s.Tame (s.land landing) ∧ (s.land landing).displaced = s.displaced := by
  cases landing with
  | focus change =>
    have hid : (s.focus change).lease.id = s.lease.id := by
      rcases (s.focus_eq change).2.2.2 with ⟨-, hl, -⟩ | ⟨-, hl, -⟩ | ⟨-, hid, -⟩
      · exact (congrArg Lease.id hl).trans (Lease.focus_id ..)
      · exact (congrArg Lease.id hl).trans (Lease.focus_id ..)
      · exact hid
    exact ⟨⟨focus_onward change, (s.focus_eq change).2.1, hid, .inl (focus_displaced change)⟩,
      focus_displaced change⟩
  | contentType value => exact ⟨⟨land_onward _, rfl, rfl, .inl rfl⟩, rfl⟩
  | surrounding c =>
    have hsame : (s.surrounding c).nextLease = s.nextLease ∧
        (s.surrounding c).lease.id = s.lease.id ∧ (s.surrounding c).displaced = s.displaced := by
      unfold surrounding
      split <;> exact ⟨rfl, rfl, rfl⟩
    exact ⟨⟨land_onward (.surrounding c), hsame.1, hsame.2.1, .inl hsame.2.2⟩, hsame.2.2⟩
  | expire blip even =>
    obtain ⟨-, hnext, -, -, hid, -⟩ := s.expire_now blip even
    have hdisplaced : (s.expire blip even).displaced = s.displaced := by
      unfold expire
      split <;> rfl
    exact ⟨⟨expire_onward blip even, hnext, hid, .inl hdisplaced⟩, hdisplaced⟩
  | tick elapsed => exact ⟨⟨land_onward (.tick elapsed), rfl, rfl, .inl rfl⟩, rfl⟩
  | activated id =>
    have hdisplaced : (s.activated id).displaced = s.displaced := by
      unfold EngineState.activated
      split <;> rfl
    exact ⟨activated_tame id, hdisplaced⟩
  | activatedCurrent =>
    have hdisplaced : s.activatedCurrent.displaced = s.displaced := by
      unfold activatedCurrent
      split <;> rfl
    have htame := activated_tame (s := s) s.lease.id
    rw [← World.activatedCurrent_eq] at htame
    exact ⟨htame, hdisplaced⟩
  | mint | unfocus | retire | taken | displace | reclaim => cases houtside

theorem wrote_tame (id : ℕ) :
    s.Tame (s.wrote id) ∧ (s.wrote id).displaced = s.displaced := by
  have hsame : (s.wrote id).nextLease = s.nextLease ∧ (s.wrote id).lease.id = s.lease.id ∧
      (s.wrote id).displaced = s.displaced := by
    unfold EngineState.wrote
    split <;> exact ⟨rfl, rfl, rfl⟩
  exact ⟨⟨wrote_onward id, hsame.1, hsame.2.1, .inl hsame.2.2⟩, hsame.2.2⟩

theorem unfocus_tame (id : ℕ) :
    s.Tame (s.unfocus id) ∧ (s.unfocus id).displaced = s.displaced := by
  have hsame : (s.unfocus id).nextLease = s.nextLease ∧ (s.unfocus id).lease.id = s.lease.id ∧
      (s.unfocus id).displaced = s.displaced := by
    unfold unfocus
    split <;> exact ⟨rfl, rfl, rfl⟩
  exact ⟨⟨land_onward (.unfocus id), hsame.1, hsame.2.1, .inl hsame.2.2⟩, hsame.2.2⟩

theorem retire_tame (id : ℕ) :
    s.Tame (s.retire id).2 ∧ (s.retire id).2.displaced = s.displaced := by
  have hsame : (s.retire id).2.nextLease = s.nextLease ∧ (s.retire id).2.lease.id = s.lease.id ∧
      (s.retire id).2.displaced = s.displaced := by
    unfold retire
    split <;> exact ⟨rfl, rfl, rfl⟩
  exact ⟨⟨retire_onward id, hsame.1, hsame.2.1, .inl hsame.2.2⟩, hsame.2.2⟩

theorem taken_tame (id : ℕ) : s.Tame (s.taken id) ∧ (s.taken id).displaced = none := by
  have hsame : (s.taken id).nextLease = s.nextLease ∧ (s.taken id).lease.id = s.lease.id := by
    unfold taken
    dsimp only
    split <;> exact ⟨rfl, rfl⟩
  exact ⟨⟨taken_onward id, hsame.1, hsame.2, .inr rfl⟩, rfl⟩

/-- A lease that another engine took is not held. -/
theorem taken_holds (id : ℕ) : (s.taken id).holds id = false := by
  unfold taken holds
  dsimp only
  split
  · next hheld => simp [Lease.heldBy]
  · next hheld => exact Bool.eq_false_of_not_eq_true hheld

theorem reclaim_tame (found : Retired) : s.Tame (s.reclaim found).2 := by
  refine ⟨reclaim_onward found, ?_, ?_, ?_⟩ <;> unfold reclaim
  · split <;> rfl
  · split <;> rfl
  · split
    · exact .inl rfl
    · exact .inr rfl

/-- What is reclaimed was recorded, and is no more. -/
theorem reclaim_some {found : Retired} {engine : String}
    (h : (s.reclaim found).1 = some engine) : found ≠ .superseded ∧ s.displaced = some engine ∧
      (s.reclaim found).2.displaced = none := by
  unfold reclaim at h ⊢
  split_ifs at h ⊢ with hrestores
  · exact ⟨fun hsuperseded => hrestores (by rw [hsuperseded]; rfl), h, rfl⟩

/-- Nothing is reclaimed by a superseded lease, or there was nothing. -/
theorem reclaim_none {found : Retired} (h : (s.reclaim found).1 = none) :
    (s.reclaim found).2.displaced = s.displaced ∧ (found = .superseded ∨ s.displaced = none) := by
  unfold reclaim at h ⊢
  split_ifs at h ⊢ with hrestores
  · refine ⟨rfl, .inl ?_⟩
    cases found with
    | superseded => rfl
    | held | lost => cases hrestores
  · exact ⟨h.symm, .inr h⟩

/-- What retiring finds: a superseded lease is another's. -/
theorem retire_found (id : ℕ) :
    ((s.retire id).1 = .superseded ↔ s.lease.id ≠ id) ∧
      ((s.retire id).1 = .held → s.holds id = true) := by
  unfold retire holds Lease.heldBy
  by_cases hid : s.lease.id = id
  · rw [if_neg (not_not.mpr hid)]
    by_cases hlost : s.lease.binding = .lost <;> simp [hid, hlost]
  · rw [if_pos hid]
    simp [hid]

/-- The record after `displace`. -/
theorem displace_eq (current : Option String) :
    s.displace current = if records current then { s with displaced := current } else s := by
  unfold displace records
  cases current <;> rfl

end EngineState

/-! ## Answers -/

theorem globalEngineOf_name {answer : Except CallError (Option String)} {name : String}
    (h : globalEngineOf answer = .ok (some name)) : answer = .ok (some name) := by
  cases answer with
  | ok answer =>
    cases h
    rfl
  | error e =>
    cases e <;> cases h

theorem globalEngineName_name {answer : Except CallError (Option String)} {name : String}
    (h : globalEngineName answer = some name) : answer = .ok (some name) := by
  apply globalEngineOf_name
  unfold globalEngineName at h
  cases hanswer : globalEngineOf answer with
  | ok now =>
    rw [hanswer] at h
    exact congrArg Except.ok h
  | error err =>
    rw [hanswer] at h
    cases h

/-! ## Every run -/

/-- The lease of an acquire that has not handed it over. -/
def AcquirePc.lease : AcquirePc → Option ℕ
  | .minted _ lease => some lease
  | .answered _ lease _ => some lease
  | .focusing _ lease => some lease
  | .checking _ lease => some lease
  | .checked _ lease _ _ => some lease
  | .settling lease => some lease
  | _ => none

namespace Injector

variable {w w' : Injector}

/-- A name that was given when the daemon had made so many switches, and is up to date where it has
made no other. -/
def Seen (w : Injector) (asked : Option ℕ) (name : Option String) : Prop :=
  ∀ n, asked = some n → n ≤ w.switches ∧ (n = w.switches → name = some w.global)

/-- What an acquire was told of the global engine. -/
def AcquireOk (w : Injector) : AcquirePc → Prop
  | .registering before asked => w.Seen asked before
  | .switching a => w.Seen a.asked a.displaced
  | .minted a _ => w.Seen a.asked a.displaced
  | .checked _ _ answer asked =>
    asked ≤ w.switches ∧ (asked = w.switches → w.truthful answer = true)
  | _ => True

/-- What a target was told of it. -/
def NamedOk (w : Injector) : Named → Prop
  | .ours asked => asked ≤ w.switches ∧ (asked = w.switches → w.global = ENGINE_NAME)
  | .other asked => asked ≤ w.switches
  | .nothing => True

/-- Where the lease is still the target's, it has nothing to hand back. -/
def Spent (w : Injector) (lease : ℕ) : Prop :=
  w.engine.lease.id = lease → w.engine.holds lease = false ∧ w.engine.displaced = none

def TargetOk (w : Injector) (lease : ℕ) : TargetPc → Prop
  | .told _ answer asked => asked ≤ w.switches ∧ (asked = w.switches → w.truthful answer = true)
  | .settling named => w.NamedOk named ∧ (named.isOther = true → w.Spent lease)
  | .settled named => w.NamedOk named ∧ (named.isOther = true → w.Spent lease)
  | .hidingPreedit named found superseded =>
    w.NamedOk named ∧ named.isOther = false ∧ found = .held ∧ superseded = false
  | .restoring named _ => w.NamedOk named ∧ named.isOther = false
  | _ => True

/-- Between any two steps of a run. -/
structure Inv (w : Injector) : Prop where
  lease : w.engine.nextLease = w.engine.lease.id + 1
  acquire : ∀ pc, w.acquire = some pc → w.AcquireOk pc ∧
    ∀ lease, pc.lease = some lease → lease = w.engine.lease.id ∧ w.targets.get? lease = none
  targets : ∀ lease pc, w.targets.get? lease = some pc →
    lease ≤ w.engine.lease.id ∧ w.TargetOk lease pc
  record : records w.engine.displaced = w.engine.displaced.isSome
  restores : (w.restores.map Restore.record).Nodup
  earlier : ∀ r ∈ w.restores, r.record ≤ w.recorded ∧
    (w.engine.displaced.isSome = true → r.record < w.recorded)
  current : ∀ r ∈ w.restores, r.superseded = false
  undone : ∀ u ∈ w.undone, u.recorded = true ∨ u.unseen = true

theorem inv_init (first : String) : ({ global := first } : Injector).Inv where
  lease := rfl
  acquire := nofun
  targets := nofun
  record := rfl
  restores := List.nodup_nil
  earlier := nofun
  current := nofun
  undone := nofun

/-! ### What a step changes -/

theorem Spent.tame {lease : ℕ} {engine : EngineState} (h : w.Spent lease)
    (htame : w.engine.Tame engine) (hlt : lease < w.engine.nextLease) :
    ({ w with engine } : Injector).Spent lease := by
  intro hid
  obtain ⟨hholds, hnone⟩ := h (htame.id.symm.trans hid)
  refine ⟨htame.onward.lost lease hlt hholds, ?_⟩
  cases htame.displaced with
  | inl hsame => exact hsame.trans hnone
  | inr hnone' => exact hnone'

/-- The engine's state changes, and the lease stays with its owner. -/
theorem Inv.tame (h : w.Inv) {engine : EngineState} (htame : w.engine.Tame engine) :
    ({ w with engine } : Injector).Inv where
  lease := by
    show engine.nextLease = engine.lease.id + 1
    rw [htame.next, htame.id]
    exact h.lease
  acquire := by
    intro pc hpc
    obtain ⟨hok, hlease⟩ := h.acquire pc hpc
    refine ⟨by cases pc <;> exact hok, fun lease hl => ?_⟩
    obtain ⟨rfl, hnone⟩ := hlease lease hl
    exact ⟨htame.id.symm, hnone⟩
  targets := by
    intro lease pc hpc
    obtain ⟨hle, hok⟩ := h.targets lease pc hpc
    refine ⟨hle.trans htame.id.ge, ?_⟩
    have hlt : lease < w.engine.nextLease := by
      rw [h.lease]
      omega
    cases pc with
    | settling named => exact ⟨hok.1, fun hother => (hok.2 hother).tame htame hlt⟩
    | settled named => exact ⟨hok.1, fun hother => (hok.2 hother).tame htame hlt⟩
    | _ => exact hok
  record := by
    show records engine.displaced = engine.displaced.isSome
    cases htame.displaced with
    | inl hsame => rw [hsame, h.record]
    | inr hnone => rw [hnone]; rfl
  restores := h.restores
  earlier := by
    intro r hr
    refine ⟨(h.earlier r hr).1, fun hsome => (h.earlier r hr).2 ?_⟩
    have hsome : engine.displaced.isSome = true := hsome
    cases htame.displaced with
    | inl hsame => rwa [hsame] at hsome
    | inr hnone =>
      rw [hnone] at hsome
      cases hsome
  current := h.current
  undone := h.undone

/-- The acquire goes on. -/
theorem Inv.withAcquire (h : w.Inv) {acquire : Option AcquirePc}
    (hok : ∀ pc, acquire = some pc → w.AcquireOk pc ∧
      ∀ lease, pc.lease = some lease → lease = w.engine.lease.id ∧ w.targets.get? lease = none) :
    ({ w with acquire } : Injector).Inv where
  lease := h.lease
  acquire := by
    intro pc hpc
    obtain ⟨hpc, hlease⟩ := hok pc hpc
    exact ⟨by cases pc <;> exact hpc, hlease⟩
  targets := by
    intro lease pc hpc
    obtain ⟨hle, hpc⟩ := h.targets lease pc hpc
    exact ⟨hle, by cases pc <;> exact hpc⟩
  record := h.record
  restores := h.restores
  earlier := h.earlier
  current := h.current
  undone := h.undone

theorem Inv.returns (h : w.Inv) (result : Except InjectError ℕ) : (w.returns result).Inv where
  lease := h.lease
  acquire := nofun
  targets := by
    intro lease pc hpc
    obtain ⟨hle, hok⟩ := h.targets lease pc hpc
    exact ⟨hle, by cases pc <;> exact hok⟩
  record := h.record
  restores := h.restores
  earlier := h.earlier
  current := h.current
  undone := h.undone

/-- A target goes on. -/
theorem Inv.setTarget (h : w.Inv) {lease : ℕ} (pc : TargetPc) (hle : lease ≤ w.engine.lease.id)
    (hok : w.TargetOk lease pc) (hacquire : ∀ pc, w.acquire = some pc → pc.lease ≠ some lease) :
    ({ w with targets := w.targets.set lease pc } : Injector).Inv where
  lease := h.lease
  acquire := by
    intro pc' hpc
    obtain ⟨hpc', hlease⟩ := h.acquire pc' hpc
    refine ⟨by cases pc' <;> exact hpc', fun other hother => ?_⟩
    obtain ⟨hid, hnone⟩ := hlease other hother
    refine ⟨hid, ?_⟩
    show (w.targets.set lease pc).get? other = none
    rw [Dict.get?_set, if_neg, hnone]
    rintro rfl
    exact hacquire pc' hpc hother
  targets := by
    intro other pc' hpc
    have hpc : (w.targets.set lease pc).get? other = some pc' := hpc
    rw [Dict.get?_set] at hpc
    split at hpc
    · next heq =>
      cases hpc
      subst heq
      exact ⟨hle, by cases pc <;> exact hok⟩
    · obtain ⟨hle', hok'⟩ := h.targets other pc' hpc
      exact ⟨hle', by cases pc' <;> exact hok'⟩
  record := h.record
  restores := h.restores
  earlier := h.earlier
  current := h.current
  undone := h.undone

/-- A target is gone. -/
theorem Inv.removeTarget (h : w.Inv) (lease : ℕ) :
    ({ w with targets := w.targets.remove lease } : Injector).Inv where
  lease := h.lease
  acquire := by
    intro pc hpc
    obtain ⟨hok, hlease⟩ := h.acquire pc hpc
    refine ⟨by cases pc <;> exact hok, fun other hother => ?_⟩
    obtain ⟨hid, hnone⟩ := hlease other hother
    refine ⟨hid, ?_⟩
    show (w.targets.remove lease).get? other = none
    rw [Dict.get?_remove, hnone, ite_self]
  targets := by
    intro other pc hpc
    have hpc : (w.targets.remove lease).get? other = some pc := hpc
    rw [Dict.get?_remove] at hpc
    split at hpc
    · cases hpc
    · obtain ⟨hle, hok⟩ := h.targets other pc hpc
      exact ⟨hle, by cases pc <;> exact hok⟩
  record := h.record
  restores := h.restores
  earlier := h.earlier
  current := h.current
  undone := h.undone

/-- Another engine is global: what was told before is out of date. -/
theorem Inv.becomes (h : w.Inv) (name : String) {undone : List Undone}
    (hundone : ∀ u ∈ undone, u.recorded = true ∨ u.unseen = true) :
    ({ w with global := name, switches := w.switches + 1, undone } : Injector).Inv where
  lease := h.lease
  acquire := by
    intro pc hpc
    obtain ⟨hok, hlease⟩ := h.acquire pc hpc
    refine ⟨?_, hlease⟩
    have hseen : ∀ asked known, w.Seen asked known → ({ w with
        global := name
        switches := w.switches + 1
        undone } : Injector).Seen asked known := by
      intro asked known hknown n hn
      have hle := (hknown n hn).1
      refine ⟨Nat.le_succ_of_le hle, fun heq => ?_⟩
      have heq : n = w.switches + 1 := heq
      omega
    cases pc with
    | registering before asked => exact hseen _ _ hok
    | switching a => exact hseen _ _ hok
    | minted a lease => exact hseen _ _ hok
    | checked a lease answer asked =>
      refine ⟨Nat.le_succ_of_le hok.1, fun heq => ?_⟩
      have hle := hok.1
      have heq : asked = w.switches + 1 := heq
      omega
    | _ => trivial
  targets := by
    intro lease pc hpc
    obtain ⟨hle, hok⟩ := h.targets lease pc hpc
    refine ⟨hle, ?_⟩
    have hnamed : ∀ named, w.NamedOk named → ({ w with
        global := name
        switches := w.switches + 1
        undone } : Injector).NamedOk named := by
      intro named hnamed
      cases named with
      | ours asked =>
        refine ⟨Nat.le_succ_of_le hnamed.1, fun heq => ?_⟩
        have hle := hnamed.1
        have heq : asked = w.switches + 1 := heq
        omega
      | other asked => exact Nat.le_succ_of_le hnamed
      | nothing => trivial
    cases pc with
    | told release answer asked =>
      refine ⟨Nat.le_succ_of_le hok.1, fun heq => ?_⟩
      have hle := hok.1
      have heq : asked = w.switches + 1 := heq
      omega
    | settling named => exact ⟨hnamed _ hok.1, hok.2⟩
    | settled named => exact ⟨hnamed _ hok.1, hok.2⟩
    | hidingPreedit named found superseded => exact ⟨hnamed _ hok.1, hok.2⟩
    | restoring named engine => exact ⟨hnamed _ hok.1, hok.2⟩
    | _ => trivial
  record := h.record
  restores := h.restores
  earlier := h.earlier
  current := h.current
  undone := hundone

/-- The daemon makes an engine global that an acquire or a release asked for. -/
theorem Inv.setGlobal (h : w.Inv) {name : String} {recorded unseen : Bool}
    (hundone : w.global ≠ ENGINE_NAME → recorded = true ∨ unseen = true) :
    (w.setGlobal name recorded unseen).Inv := by
  apply h.becomes name
  intro u hu
  split at hu
  · exact h.undone u hu
  · next hne =>
    cases List.mem_append.mp hu with
    | inl hold => exact h.undone u hold
    | inr hnew =>
      rw [List.mem_singleton.mp hnew]
      exact hundone fun hours => hne (.inl hours)

/-- The acquire has not handed over its lease: no target has it. -/
theorem Inv.lease_ne (h : w.Inv) {lease : ℕ} {pc : TargetPc}
    (hget : w.targets.get? lease = some pc) :
    ∀ pc, w.acquire = some pc → pc.lease ≠ some lease := by
  intro pc' hpc hlease
  rw [((h.acquire pc' hpc).2 lease hlease).2] at hget
  cases hget

/-! ### The steps -/

theorem Inv.answered (h : w.Inv) {answer : Except CallError (Option String)} {late : Bool}
    (htruthful : w.truthful answer = true) (hstep : w.answered answer late = some w') :
    w'.Inv := by
  have hseen : w.Seen (w.askedOf (globalEngineName answer)) (globalEngineName answer) := by
    intro n hn
    unfold askedOf at hn
    split_ifs at hn with hsome
    · cases hn
      refine ⟨Nat.le_refl _, fun _ => ?_⟩
      obtain ⟨name, hname⟩ := Option.isSome_iff_exists.mp hsome
      rw [hname]
      rw [globalEngineName_name hname] at htruthful
      exact congrArg some (of_decide_eq_true htruthful)
  unfold Injector.answered at hstep
  dsimp only at hstep
  split at hstep
  · cases hstep
    apply h.withAcquire
    intro pc hpc
    cases hpc
    exact ⟨hseen, nofun⟩
  · next a err hacquire =>
    split_ifs at hstep
    · cases hstep
      exact h
    · cases hstep
      apply h.withAcquire
      intro pc hpc
      cases hpc
      exact ⟨hseen, nofun⟩
    · cases hstep
      exact h.returns _
  · next a lease hacquire =>
    cases hstep
    apply h.withAcquire
    intro pc hpc
    cases hpc
    exact ⟨⟨Nat.le_refl _, fun _ => htruthful⟩, (h.acquire _ hacquire).2⟩
  · cases hstep

theorem Inv.registered (h : w.Inv) {result : Except CallError Unit}
    (hstep : w.registered result = some w') : w'.Inv := by
  unfold Injector.registered at hstep
  split at hstep
  · next before asked hacquire =>
    split at hstep
    · cases hstep
      apply h.withAcquire
      intro pc hpc
      cases hpc
      exact ⟨(h.acquire _ hacquire).1, nofun⟩
    · cases hstep
      exact h.returns _
  · cases hstep

theorem Inv.switched (h : w.Inv) {result : Except CallError Unit}
    (hstep : w.switched result = some w') : w'.Inv := by
  unfold Injector.switched at hstep
  split at hstep
  · next a lease hacquire =>
    obtain ⟨hseen, hlease⟩ := h.acquire _ hacquire
    have hanswered : ({ w with acquire := some (.answered a lease result) } : Injector).Inv := by
      apply h.withAcquire
      intro pc hpc
      cases hpc
      exact ⟨trivial, hlease⟩
    dsimp only at hstep
    split at hstep
    · cases hstep
      apply hanswered.setGlobal
      intro _
      -- told since the last switch, the acquire records the engine it displaces
      by_cases hasked : a.asked = some w.switches
      · exact .inl (decide_eq_true ((hseen _ hasked).2 rfl))
      · exact .inr (decide_eq_true hasked)
    · cases hstep
      exact hanswered
  · cases hstep

/-- A lease is minted for the acquire. -/
theorem Inv.mints (h : w.Inv) {a : Switching} (hacquire : w.acquire = some (.switching a)) :
    ({ w with
      engine := { w.engine with contentType := {} }.mint.2
      acquire := some (.minted a { w.engine with contentType := {} }.mint.1) } : Injector).Inv where
  lease := rfl
  acquire := by
    intro pc hpc
    cases hpc
    refine ⟨(h.acquire _ hacquire).1, fun lease hlease => ?_⟩
    cases hlease
    refine ⟨rfl, ?_⟩
    -- no target has a lease that was not minted before
    cases hget : w.targets.get? w.engine.nextLease with
    | none => exact hget
    | some pc =>
      have hle := (h.targets _ pc hget).1
      have hnext := h.lease
      omega
  targets := by
    intro lease pc hpc
    obtain ⟨hle, hok⟩ := h.targets lease pc hpc
    have hnext := h.lease
    have hlt : lease < w.engine.nextLease := by omega
    refine ⟨Nat.le_of_lt hlt, ?_⟩
    cases pc with
    | settling named => exact ⟨hok.1, fun _ hid => absurd hid hlt.ne'⟩
    | settled named => exact ⟨hok.1, fun _ hid => absurd hid hlt.ne'⟩
    | _ => exact hok
  record := h.record
  restores := h.restores
  earlier := h.earlier
  current := h.current
  undone := h.undone

/-- The acquire's switch was answered: it records what that displaced. -/
theorem Inv.displaces (h : w.Inv) {a : Switching} {lease : ℕ} {result : Except CallError Unit}
    (hacquire : w.acquire = some (.answered a lease result)) :
    ({ w with
      engine := w.engine.displace a.displaced
      acquire := some (.focusing a lease)
      recorded := if records a.displaced then w.recorded + 1 else w.recorded
      failed := false } : Injector).Inv := by
  obtain ⟨-, hlease⟩ := h.acquire _ hacquire
  rw [EngineState.displace_eq]
  by_cases hrecords : records a.displaced = true
  · rw [if_pos hrecords, if_pos hrecords]
    have hsome : a.displaced.isSome = true := by
      cases hd : a.displaced with
      | none =>
        rw [hd] at hrecords
        cases hrecords
      | some name => rfl
    refine ⟨h.lease, ?_, ?_, hrecords.trans hsome.symm, h.restores, ?_, h.current, h.undone⟩
    · intro pc hpc
      cases hpc
      exact ⟨trivial, hlease⟩
    · intro other pc hpc
      obtain ⟨hle, hok⟩ := h.targets other pc hpc
      refine ⟨hle, ?_⟩
      -- the lease is the acquire's, so no target's
      have hspent : ∀ n : Injector, n.engine.lease = w.engine.lease → n.Spent other := by
        intro n hn hid
        have hid : w.engine.lease.id = other := hn ▸ hid
        rw [← hid, ← (hlease lease rfl).1, (hlease lease rfl).2] at hpc
        cases hpc
      cases pc with
      | settling named => exact ⟨hok.1, fun _ => hspent _ rfl⟩
      | settled named => exact ⟨hok.1, fun _ => hspent _ rfl⟩
      | _ => exact hok
    · intro r hr
      have hle := (h.earlier r hr).1
      exact ⟨Nat.le_succ_of_le hle, fun _ => Nat.lt_succ_of_le hle⟩
  · rw [if_neg hrecords, if_neg hrecords]
    refine ⟨h.lease, ?_, ?_, h.record, h.restores, h.earlier, h.current, h.undone⟩
    · intro pc hpc
      cases hpc
      exact ⟨trivial, hlease⟩
    · intro other pc hpc
      obtain ⟨hle, hok⟩ := h.targets other pc hpc
      exact ⟨hle, by cases pc <;> exact hok⟩

/-- The acquire's target is released. -/
theorem Inv.refuses (h : w.Inv) {lease : ℕ} (hle : lease ≤ w.engine.lease.id)
    (err : InjectError) : (w.refuses lease err).Inv := by
  have hreleasing : ({ w with acquire := some (.releasing lease err) } : Injector).Inv := by
    apply h.withAcquire
    intro pc hpc
    cases hpc
    exact ⟨trivial, nofun⟩
  apply hreleasing.setTarget (.asking true) hle trivial
  intro pc hpc
  cases hpc
  exact nofun

theorem Inv.acquireActs (h : w.Inv) (hstep : w.acquireActs = some w') : w'.Inv := by
  unfold Injector.acquireActs at hstep
  dsimp only at hstep
  split at hstep
  · next a hacquire =>
    cases hstep
    exact h.mints hacquire
  · next a lease hacquire =>
    cases hstep
    exact h.displaces hacquire
  · next a lease e hacquire =>
    cases hstep
    have hretired := h.tame (w.engine.retire_tame lease).1
    have hpolling : ({ w with
        engine := (w.engine.retire lease).2
        acquire := some (.polling a (classify "SetGlobalEngine" e)) } : Injector).Inv := by
      apply hretired.withAcquire
      intro pc hpc
      cases hpc
      exact ⟨trivial, nofun⟩
    exact ⟨hpolling.lease, hpolling.acquire, hpolling.targets, hpolling.record, hpolling.restores,
      hpolling.earlier, hpolling.current, hpolling.undone⟩
  · next a lease hacquire =>
    cases hstep
    obtain ⟨-, hlease⟩ := h.acquire _ hacquire
    have htame := (w.engine.unfocus_tame lease).1
    apply (h.tame htame).withAcquire
    intro pc hpc
    cases hpc
    refine ⟨trivial, fun other hother => ?_⟩
    obtain ⟨rfl, hnone⟩ := hlease other hother
    exact ⟨htame.id.symm, hnone⟩
  · next a lease answer asked hacquire =>
    obtain ⟨⟨hle, htruthful⟩, hlease⟩ := h.acquire _ hacquire
    split at hstep
    · next now hnow =>
      split_ifs at hstep with hours hclaims
      · cases hstep
        apply h.withAcquire
        intro pc hpc
        cases hpc
        exact ⟨trivial, hlease⟩
      · cases hstep
        apply (h.tame (w.engine.taken_tame lease).1).withAcquire
        intro pc hpc
        cases hpc
        refine ⟨?_, nofun⟩
        intro n hn
        cases hn
        refine ⟨hle, fun heq => ?_⟩
        cases now with
        | none => cases hclaims
        | some name =>
          have hname := htruthful heq
          rw [globalEngineOf_name hnow] at hname
          exact congrArg some (of_decide_eq_true hname)
      · cases hstep
        exact h.refuses (hlease lease rfl).1.le _
    · cases hstep
      exact h.refuses (hlease lease rfl).1.le _
  · next lease hacquire =>
    obtain ⟨-, hlease⟩ := h.acquire _ hacquire
    split_ifs at hstep
    · cases hstep
      exact h.refuses (hlease lease rfl).1.le _
    · cases hstep
      exact h.refuses (hlease lease rfl).1.le _
    · cases hstep
      exact h.refuses (hlease lease rfl).1.le _
    · cases hstep
      have hnone : ({ w with acquire := none } : Injector).Inv := h.withAcquire nofun
      exact (hnone.setTarget .idle (hlease lease rfl).1.le trivial nofun).returns _
  · next lease err hacquire =>
    split at hstep
    · cases hstep
      exact h.returns _
    · cases hstep
  · cases hstep

/-- A target that has retired hands back what is recorded, if it may. -/
theorem Inv.reclaim (h : w.Inv) {lease : ℕ} {pc : TargetPc} {named : Named} {found : Retired}
    {superseded : Bool} (hget : w.targets.get? lease = some pc) (hnamed : w.NamedOk named)
    (hback : found ≠ .superseded → w.engine.displaced.isSome = true →
      named.isOther = false ∧ superseded = false) :
    (w.reclaim lease named found superseded).Inv := by
  have htame := w.engine.reclaim_tame found
  unfold Injector.reclaim
  split
  · next engine hengine =>
    obtain ⟨hfound, hsome, hnone⟩ := EngineState.reclaim_some hengine
    obtain ⟨hother, hcurrent⟩ := hback hfound (by rw [hsome]; rfl)
    have hset := (h.tame htame).setTarget (.restoring named engine)
      ((h.targets lease pc hget).1.trans htame.id.ge) ⟨hnamed, hother⟩ (h.lease_ne hget)
    have hbefore : ∀ r ∈ w.restores, r.record < w.recorded := fun r hr =>
      (h.earlier r hr).2 (by rw [hsome]; rfl)
    refine ⟨hset.lease, hset.acquire, ?_, hset.record, ?_, ?_, ?_, hset.undone⟩
    · intro other pc' hpc
      obtain ⟨hle, hok⟩ := hset.targets other pc' hpc
      exact ⟨hle, by cases pc' <;> exact hok⟩
    · show ((w.restores ++ [(⟨lease, w.recorded, superseded⟩ : Restore)]).map
        Restore.record).Nodup
      rw [List.map_append, List.nodup_append]
      refine ⟨h.restores, List.nodup_singleton _, ?_⟩
      intro k hk k' hk' heq
      obtain ⟨r, hr, rfl⟩ := List.mem_map.mp hk
      rw [List.mem_singleton.mp hk'] at heq
      exact absurd heq (hbefore r hr).ne
    · intro r hr
      refine ⟨?_, fun hsome' => ?_⟩
      · cases List.mem_append.mp hr with
        | inl hold => exact (hbefore r hold).le
        | inr hnew => rw [List.mem_singleton.mp hnew]
      · have hsome' : (w.engine.reclaim found).2.displaced.isSome = true := hsome'
        rw [hnone] at hsome'
        cases hsome'
    · intro r hr
      cases List.mem_append.mp hr with
      | inl hold => exact h.current r hold
      | inr hnew =>
        rw [List.mem_singleton.mp hnew]
        exact hcurrent
  · exact (h.tame htame).removeTarget lease

theorem Inv.goes (h : w.Inv) {lease : ℕ} {preedit : Bool}
    (hstep : w.goes lease preedit = some w') : w'.Inv := by
  unfold Injector.goes at hstep
  split at hstep
  · next release answer asked hget =>
    obtain ⟨hle, hasked, htruthful⟩ := h.targets lease _ hget
    have hnamed : w.NamedOk (namedOf answer asked) := by
      unfold namedOf
      split
      · next name hname =>
        split
        · next hours =>
          refine ⟨hasked, fun heq => ?_⟩
          have hglobal := htruthful heq
          rw [globalEngineOf_name hname] at hglobal
          rw [← of_decide_eq_true hglobal]
          exact hours
        · exact hasked
      · trivial
    dsimp only at hstep
    cases hstep
    have hset : ∀ engine, w.engine.Tame engine → ((namedOf answer asked).isOther = true →
        engine.holds lease = false ∧ engine.displaced = none) → ({ w with
          engine
          targets := w.targets.set lease
            (if release then .settling (namedOf answer asked) else .idle) } : Injector).Inv := by
      intro engine htame hspent
      apply (h.tame htame).setTarget _ (hle.trans htame.id.ge) ?_ (h.lease_ne hget)
      cases release with
      | false => trivial
      | true => exact ⟨hnamed, fun hother _ => hspent hother⟩
    split
    · exact hset _ (w.engine.taken_tame lease).1 fun _ =>
        ⟨w.engine.taken_holds lease, (w.engine.taken_tame lease).2⟩
    · next hother =>
      exact hset _ ⟨.rfl, rfl, rfl, .inl rfl⟩ fun hother' => absurd hother' hother
  · next named hget =>
    split_ifs at hstep
    cases hstep
    obtain ⟨hle, hok⟩ := h.targets lease _ hget
    exact h.setTarget _ hle hok (h.lease_ne hget)
  · next named hget =>
    obtain ⟨hle, hnamed, hspent⟩ := h.targets lease _ hget
    obtain ⟨hsuperseded, hheld⟩ := w.engine.retire_found lease
    obtain ⟨htame, hdisplaced⟩ := w.engine.retire_tame lease
    -- a lease that is not superseded is the last that was minted
    have hcurrent : (w.engine.retire lease).1 ≠ .superseded →
        decide (w.engine.nextLease ≠ lease + 1) = false := by
      intro hne
      have hid : w.engine.lease.id = lease := by
        by_contra hid
        exact hne (hsuperseded.mpr hid)
      rw [h.lease, hid]
      simp
    dsimp only at hstep
    split_ifs at hstep with hpreedit
    · cases hstep
      apply (h.tame htame).setTarget _ (hle.trans htame.id.ge) ?_ (h.lease_ne hget)
      have hne : (w.engine.retire lease).1 ≠ .superseded := by
        rw [hpreedit.2]
        decide
      refine ⟨hnamed, ?_, hpreedit.2, hcurrent hne⟩
      rw [← Bool.not_eq_true]
      intro hother
      have hid : w.engine.lease.id = lease := by
        by_contra hid
        exact hne (hsuperseded.mpr hid)
      have hlost := (hspent hother hid).1
      rw [hheld hpreedit.2] at hlost
      cases hlost
    · cases hstep
      apply (h.tame htame).reclaim hget hnamed
      intro hne hsome
      refine ⟨?_, hcurrent hne⟩
      rw [← Bool.not_eq_true]
      intro hother
      have hid : w.engine.lease.id = lease := by
        by_contra hid
        exact hne (hsuperseded.mpr hid)
      have hsome : (w.engine.retire lease).2.displaced.isSome = true := hsome
      rw [hdisplaced, (hspent hother hid).2] at hsome
      cases hsome
  · next named found superseded hget =>
    cases hstep
    obtain ⟨-, hnamed, hother, -, hcurrent⟩ := h.targets lease _ hget
    exact h.reclaim hget hnamed fun _ _ => ⟨hother, hcurrent⟩
  · cases hstep

theorem Inv.restored (h : w.Inv) {lease : ℕ} {result : Except CallError Unit}
    (hstep : w.restored lease result = some w') : w'.Inv := by
  unfold Injector.restored at hstep
  split at hstep
  · next named engine hget =>
    obtain ⟨-, hnamed, hother⟩ := h.targets lease _ hget
    dsimp only at hstep
    split at hstep
    · cases hstep
      apply (h.removeTarget lease).setGlobal
      intro hglobal
      right
      apply decide_eq_true
      intro hasked
      cases named with
      | ours asked =>
        cases hasked
        exact hglobal (hnamed.2 rfl)
      | other asked => cases hother
      | nothing => cases hasked
    · cases hstep
      exact h.removeTarget lease
  · cases hstep

/-- Whatever happens next. -/
theorem Inv.step (h : w.Inv) {e : Event} (hstep : w.step e = some w') : w'.Inv := by
  cases e with
  | lands landing =>
    dsimp only [Injector.step] at hstep
    split_ifs at hstep with houtside
    cases hstep
    exact h.tame (EngineState.land_tame houtside).1
  | other name =>
    cases hstep
    exact h.becomes name h.undone
  | acquire =>
    dsimp only [Injector.step] at hstep
    split_ifs at hstep
    cases hstep
    apply h.withAcquire
    intro pc hpc
    cases hpc
    exact ⟨trivial, nofun⟩
  | answer answer late =>
    dsimp only [Injector.step] at hstep
    split_ifs at hstep with htruthful
    exact h.answered htruthful hstep
  | registered result => exact h.registered hstep
  | switched result => exact h.switched hstep
  | acquireActs => exact h.acquireActs hstep
  | commit lease =>
    dsimp only [Injector.step] at hstep
    split_ifs at hstep with hget
    cases hstep
    exact h.setTarget _ (h.targets lease _ hget).1 trivial (h.lease_ne hget)
  | release lease =>
    dsimp only [Injector.step] at hstep
    split_ifs at hstep with hget
    cases hstep
    exact h.setTarget _ (h.targets lease _ hget).1 trivial (h.lease_ne hget)
  | wrote lease =>
    dsimp only [Injector.step] at hstep
    split_ifs at hstep
    cases hstep
    exact h.tame (w.engine.wrote_tame lease).1
  | told lease answer =>
    dsimp only [Injector.step] at hstep
    split at hstep
    · next release hget =>
      split_ifs at hstep with htruthful
      cases hstep
      exact h.setTarget _ (h.targets lease _ hget).1 ⟨Nat.le_refl _, fun _ => htruthful⟩
        (h.lease_ne hget)
    · cases hstep
  | goes lease preedit => exact h.goes hstep
  | restored lease result => exact h.restored hstep

/-- In any order. -/
theorem Inv.run (h : w.Inv) {events : List Event} (hrun : w.run events = some w') : w'.Inv := by
  induction events generalizing w with
  | nil =>
    cases hrun
    exact h
  | cons e events ih =>
    obtain ⟨w₁, hstep, hrun⟩ := Option.bind_eq_some_iff.mp hrun
    exact ih (h.step hstep) hrun

end Injector

end Ibus

end Desktop

end Myna
