import Myna.Hud.Window
import Mathlib.Data.Rat.Cast.Order
import Mathlib.Tactic.Linarith

/-!
# Myna — what the window shows over a run

Where idle never comes for a notice that is still held, nor for an error, the pill's own timers are
never armed: it shows what was applied last, and the window's timers unmap it only while that is
idle. Where idle does come for one, the timers run out with the notice still there.

* **`Inv`** — what holds of such a run;
* **`held_and_gone`** — the property of every state of it.
-/

namespace Myna

namespace Hud

variable {host : Bool} {w w' : World} {e : Event} {d : Descriptor}

/-! ## The slot -/

theorem eq_hidden_of_hidden {state : Option String} {statusMessage : String}
    (h : (stateToDescriptor state statusMessage).hidden = true) :
    stateToDescriptor state statusMessage = hidden := by
  unfold stateToDescriptor at h ⊢
  split
  · rfl
  · split
    · rfl
    · rename_i hidle
      simp [hidle] at h

/-- What the slot is while the pill shows `d` since `since`. -/
def slotOf (d : Descriptor) (since : ℚ) : NoticeSlot where
  severity := d.severity
  expiresAt :=
    if d.severity = some .recoverable then some (since + holdMsFor d.statusText) else none

theorem slotOf_hidden (since : ℚ) : slotOf hidden since = {} := rfl

theorem hold_eq (slot : NoticeSlot) (d : Descriptor) (now : ℚ) :
    (if d.severity.isSome then slot.hold d.severity d.statusText now else slot.clear)
      = slotOf d now := by
  unfold slotOf
  cases d.severity with
  | none => rfl
  | some severity => cases severity <;> rfl

theorem slotOf_isShowing_iff (since now : ℚ) :
    (slotOf d since).isShowing now = true ↔
      d.severity = some .critical ∨
        d.severity = some .recoverable ∧ now ≤ since + holdMsFor d.statusText := by
  unfold slotOf NoticeSlot.isShowing
  cases d.severity with
  | none => simp
  | some severity => cases severity <;> simp

/-! ## The invariant -/

/-- A timer of the window itself. -/
def TimerKind.own : TimerKind → Bool
  | .goIdle _ | .pillFade => false
  | .fade | .map | .reveal => true

/-- The pill shows what was applied last, and the window follows. -/
structure Inv (w : World) : Prop where
  own : ∀ timer ∈ w.timers, timer.kind.own
  descriptor : w.descriptor = w.last.getD hidden
  notice : w.notice = slotOf w.descriptor w.since
  start : w.last = none → w.live = none ∧ w.visible = false ∧ w.timers = []
  live : ∀ d, w.last = some d → d.hidden = false → w.live = some d
  hidden : ∀ d, w.last = some d → d.hidden → d = hidden
  /-- Idle was applied after the hold. -/
  expired : ∀ d live, w.last = some d → d.hidden → w.live = some live →
    live.severity = some .recoverable → w.since + holdMsFor live.statusText < w.now
  pending : ∀ d, w.last = some d → w.pendingHidden = d.hidden
  up : ∀ d, w.last = some d → d.hidden = false → w.mapped
  down : ∀ d, w.last = some d → d.hidden → w.visible →
    ∃ timer ∈ w.timers, timer.kind = .fade

theorem inv_init : Inv {} where
  own := nofun
  descriptor := rfl
  notice := (slotOf_hidden 0).symm
  start := fun _ => ⟨rfl, rfl, rfl⟩
  live := nofun
  hidden := fun _ hlast => nomatch hlast
  expired := fun _ _ hlast => nomatch hlast
  pending := nofun
  up := fun _ hlast => nomatch hlast
  down := fun _ hlast => nomatch hlast

namespace Inv

theorem right (h : Inv w) : Right w := by
  refine ⟨?_, ?_, ?_, ?_⟩
  · rintro d hlive ⟨hnotice, hnow⟩
    cases hlast : w.last with
    | none =>
      obtain ⟨hnone, -⟩ := h.start hlast
      cases hnone.symm.trans hlive
    | some last =>
      cases hhidden : last.hidden with
      | true =>
        have hexpired := h.expired last d hlast hhidden hlive hnotice
        exact absurd hnow (not_le_of_gt hexpired)
      | false =>
        obtain rfl := Option.some.inj (hlive.symm.trans (h.live last hlast hhidden))
        rw [h.descriptor, hlast]
        exact ⟨rfl, h.up d hlast hhidden⟩
  · intro d hlast hhidden
    rw [h.descriptor, hlast]
    exact ⟨rfl, h.up d hlast hhidden⟩
  · intro d next _ _ hlast
    rw [h.descriptor, hlast]
    rfl
  · intro d hlast hhidden _ htimers
    refine ⟨?_, ?_⟩
    · rw [h.descriptor, hlast]
      exact h.hidden d hlast hhidden
    · rw [← Bool.not_eq_true]
      intro hvisible
      obtain ⟨timer, htimer, -⟩ := h.down d hlast hhidden hvisible
      rw [htimers] at htimer
      cases htimer

/-- What the pill holds is on screen exactly if idle would have to wait for it. -/
theorem isShowing_iff (h : Inv w) :
    w.notice.isShowing w.now = true ↔
      w.descriptor.severity = some .critical ∨ w.holding w.descriptor := by
  rw [h.notice]
  exact slotOf_isShowing_iff w.since w.now

/-! ## The steps -/

/-- A descriptor that the pill takes. -/
theorem pillApply_eq (w : World) (htakes : (d.hidden && w.notice.isShowing w.now) = false) :
    w.pillApply d = { w with notice := slotOf d w.now, descriptor := d } := by
  unfold World.pillApply
  rw [if_neg (by simp [htakes]), hold_eq]

/-- What the window does for a descriptor: it stays mapped or is mapped for one to show, and fades
out for idle. -/
theorem setHiddenFaded_eq (host : Bool) (w : World) (isHidden : Bool)
    (hown : ∀ timer ∈ w.timers, timer.kind.own) :
    ∃ faded visible timers,
      w.setHiddenFaded host isHidden
          = { w with faded, visible, timers, pendingHidden := isHidden } ∧
        (∀ timer ∈ timers, timer.kind.own) ∧
        (isHidden = false → visible ∨ ∃ timer ∈ timers, timer.kind = .map) ∧
        (isHidden → visible → ∃ timer ∈ timers, timer.kind = .fade) := by
  have happend : ∀ kind : TimerKind, kind.own → ∀ due,
      ∀ timer ∈ w.timers ++ [⟨kind, due⟩], timer.kind.own := by
    intro kind hkind due timer htimer
    rcases List.mem_append.mp htimer with htimer | htimer
    · exact hown timer htimer
    · rw [List.mem_singleton.mp htimer]
      exact hkind
  cases isHidden with
  | true =>
    cases hvisible : w.visible with
    | false =>
      refine ⟨w.faded, false, w.timers, ?_, hown, nofun, nofun⟩
      simp [World.setHiddenFaded, hvisible]
    | true =>
      refine ⟨true, true, w.timers ++ [⟨.fade, w.now + fadeMs⟩], ?_, happend _ rfl _, nofun, ?_⟩
      · simp [World.setHiddenFaded, hvisible, World.arm]
      · exact fun _ _ => ⟨_, List.mem_append_right _ (List.mem_singleton_self _), rfl⟩
  | false =>
    cases hvisible : w.visible with
    | true =>
      refine ⟨false, true, w.timers, ?_, hown, fun _ => .inl rfl, nofun⟩
      simp [World.setHiddenFaded, hvisible]
    | false =>
      cases host with
      | true =>
        refine ⟨w.faded, false, w.timers ++ [⟨.map, w.now + 0⟩], ?_, happend _ rfl _, ?_, nofun⟩
        · simp [World.setHiddenFaded, hvisible, World.arm]
        · exact fun _ => .inr ⟨_, List.mem_append_right _ (List.mem_singleton_self _), rfl⟩
      | false =>
        refine ⟨true, true, w.timers ++ [⟨.reveal, w.now + 0⟩], ?_, happend _ rfl _,
          fun _ => .inl rfl, nofun⟩
        simp [World.setHiddenFaded, hvisible, World.mapFaded, World.arm]

/-- Idle, where the pill holds nothing back. -/
theorem applyHidden (h : Inv w) (hshowing : w.notice.isShowing w.now = false) :
    Inv (w.applyDescriptor host Hud.hidden) := by
  have hexpired : ∀ live, w.live = some live → live.severity = some .recoverable →
      w.since + holdMsFor live.statusText < w.now := by
    intro live hlive hnotice
    cases hlast : w.last with
    | none =>
      obtain ⟨hnone, -⟩ := h.start hlast
      cases hnone.symm.trans hlive
    | some last =>
      cases hhidden : last.hidden with
      | true => exact h.expired last live hlast hhidden hlive hnotice
      | false =>
        obtain rfl := Option.some.inj (hlive.symm.trans (h.live last hlast hhidden))
        have hdescriptor : w.descriptor = live := by rw [h.descriptor, hlast]; rfl
        have hnot := mt h.isShowing_iff.mpr (by simp [hshowing])
        rw [hdescriptor] at hnot
        exact lt_of_not_ge fun hle => hnot (.inr ⟨hnotice, hle⟩)
  have htakes := pillApply_eq (d := Hud.hidden) { w with last := some Hud.hidden }
    (by simp [hshowing])
  unfold World.applyDescriptor
  simp only [Hud.hidden, if_true] at htakes ⊢
  rw [htakes]
  obtain ⟨faded, visible, timers, heq, hown, -, hdown⟩ := setHiddenFaded_eq host
    { w with last := some Hud.hidden, notice := slotOf Hud.hidden w.now, descriptor := Hud.hidden }
    true h.own
  simp only [Hud.hidden] at heq
  rw [heq]
  refine ⟨hown, rfl, rfl, nofun, ?_, ?_, ?_, ?_, ?_, ?_⟩
  · intro d hlast hhidden
    obtain rfl := Option.some.inj hlast
    cases hhidden
  · exact fun d hlast _ => (Option.some.inj hlast).symm
  · exact fun d live _ _ hlive hnotice => hexpired live hlive hnotice
  · intro d hlast
    obtain rfl := Option.some.inj hlast
    rfl
  · intro d hlast hhidden
    obtain rfl := Option.some.inj hlast
    cases hhidden
  · exact fun d _ _ hvisible => hdown rfl hvisible

theorem applyShown (h : Inv w) (hshown : d.hidden = false) : Inv (w.applyDescriptor host d) := by
  have htakes := pillApply_eq (d := d) { w with last := some d, live := some d, since := w.now }
    (by simp [hshown])
  unfold World.applyDescriptor
  simp only [hshown, Bool.false_eq_true, if_false]
  rw [htakes]
  obtain ⟨faded, visible, timers, heq, hown, hup, -⟩ := setHiddenFaded_eq host
    { w with
      last := some d
      live := some d
      since := w.now
      notice := slotOf d w.now
      descriptor := d }
    false h.own
  rw [heq]
  have hne : ∀ d', some d = some d' → d'.hidden = false := by
    intro d' heq
    rw [← Option.some.inj heq]
    exact hshown
  refine ⟨hown, rfl, rfl, nofun, fun d' hlast _ => hlast, ?_, ?_, ?_, fun _ _ _ => hup rfl, ?_⟩
  · exact fun d' hlast hhidden => absurd hhidden (by simp [hne d' hlast])
  · exact fun d' _ hlast hhidden => absurd hhidden (by simp [hne d' hlast])
  · exact fun d' hlast => (hne d' hlast).symm
  · exact fun d' hlast hhidden => absurd hhidden (by simp [hne d' hlast])

theorem apply (h : Inv w) {state : Option String} {statusMessage : String}
    (hmeets : meets w (.apply state statusMessage) = true) :
    Inv (w.applyDescriptor host (stateToDescriptor state statusMessage)) := by
  cases hhidden : (stateToDescriptor state statusMessage).hidden with
  | false => exact h.applyShown hhidden
  | true =>
    simp only [meets, hhidden, Bool.true_and, Bool.not_eq_true'] at hmeets
    rw [eq_hidden_of_hidden hhidden]
    exact h.applyHidden hmeets

theorem hidden_of_last (h : Inv w) (hhidden : w.descriptor.hidden = true) :
    w.descriptor = Hud.hidden := by
  rw [h.descriptor] at hhidden ⊢
  cases hlast : w.last with
  | none => rfl
  | some d =>
    rw [hlast] at hhidden
    exact h.hidden d hlast hhidden

/-- A new style starts the hold of a notice anew. -/
theorem restyle (h : Inv w) : Inv w.restyle := by
  unfold World.restyle
  have htakes : ∀ since, World.pillApply { w with since } w.descriptor =
      { w with since, notice := slotOf w.descriptor w.now } := by
    intro since
    refine pillApply_eq (d := w.descriptor) { w with since } ?_
    cases hhidden : w.descriptor.hidden with
    | false => rfl
    | true =>
      show w.notice.isShowing w.now = false
      rw [h.notice, h.hidden_of_last hhidden]
      rfl
  dsimp only
  rw [htakes]
  refine ⟨h.own, h.descriptor, ?_, h.start, h.live, h.hidden, ?_, h.pending, h.up, h.down⟩
  · show slotOf w.descriptor w.now = slotOf w.descriptor _
    cases hhidden : w.descriptor.hidden with
    | false => rfl
    | true => rw [h.hidden_of_last hhidden, slotOf_hidden, slotOf_hidden]
  · intro d live hlast hhidden
    have hidle : w.descriptor.hidden = true := by
      rw [h.descriptor, show w.last = some d from hlast]
      exact hhidden
    simp only [hidle, if_true]
    exact h.expired d live hlast hhidden

theorem pass (h : Inv w) {ms : ℚ} (hms : 0 ≤ ms) : Inv { w with now := w.now + ms } := by
  refine ⟨h.own, h.descriptor, h.notice, h.start, h.live, h.hidden, ?_, h.pending, h.up, h.down⟩
  intro d live hlast hhidden hlive hnotice
  have hexpired := h.expired d live hlast hhidden hlive hnotice
  show w.since + holdMsFor live.statusText < w.now + ms
  linarith

theorem mem_eraseIdx {i : ℕ} {timer other : Timer} (hi : w.timers[i]? = some timer)
    (hmem : other ∈ w.timers) (hne : other.kind ≠ timer.kind) : other ∈ w.timers.eraseIdx i := by
  obtain ⟨j, hj⟩ := List.mem_iff_getElem?.mp hmem
  refine List.mem_eraseIdx_iff_getElem?.mpr ⟨j, ?_, hj⟩
  rintro rfl
  obtain rfl := Option.some.inj (hi.symm.trans hj)
  exact hne rfl

/-- A timer fires that leaves the pill alone. -/
theorem ofTimer (h : Inv w) {i : ℕ} {timer : Timer} (hi : w.timers[i]? = some timer) {elapsed : ℚ}
    (helapsed : 0 ≤ elapsed) (faded visible : Bool) (timers : List Timer)
    (hown : ∀ timer ∈ timers, timer.kind.own)
    (hup : ∀ d, w.last = some d → d.hidden = false →
      visible ∨ ∃ timer ∈ timers, timer.kind = .map)
    (hdown : ∀ d, w.last = some d → d.hidden → visible → ∃ timer ∈ timers, timer.kind = .fade) :
    Inv { w with now := w.now + elapsed, faded, visible, timers } := by
  have h' : Inv { w with faded, visible, timers } := by
    refine ⟨hown, h.descriptor, h.notice, fun hlast => ?_, h.live, h.hidden, h.expired, h.pending,
      hup, hdown⟩
    obtain ⟨-, -, hnone⟩ := h.start hlast
    rw [hnone] at hi
    cases hi
  exact h'.pass helapsed

theorem fire (h : Inv w) {i : ℕ} {timer : Timer} (hi : w.timers[i]? = some timer) {elapsed : ℚ}
    (helapsed : 0 ≤ elapsed) :
    Inv ({ w with timers := w.timers.eraseIdx i }.fired timer.kind elapsed) := by
  have hown : ∀ timer ∈ w.timers.eraseIdx i, timer.kind.own :=
    fun other hother => h.own other (List.mem_of_mem_eraseIdx hother)
  have hfade : timer.kind ≠ .fade → ∀ d, w.last = some d → d.hidden → w.visible →
      ∃ timer ∈ w.timers.eraseIdx i, timer.kind = .fade := by
    intro hkind d hlast hhidden hvisible
    obtain ⟨other, hother, hotherKind⟩ := h.down d hlast hhidden hvisible
    exact ⟨other, mem_eraseIdx hi hother (by rw [hotherKind]; exact hkind.symm), hotherKind⟩
  have hmap : timer.kind ≠ .map → ∀ d, w.last = some d → d.hidden = false →
      w.visible ∨ ∃ timer ∈ w.timers.eraseIdx i, timer.kind = .map := by
    intro hkind d hlast hhidden
    refine (h.up d hlast hhidden).imp_right ?_
    rintro ⟨other, hother, hotherKind⟩
    exact ⟨other, mem_eraseIdx hi hother (by rw [hotherKind]; exact hkind.symm), hotherKind⟩
  have hpast := h.own timer (List.mem_of_getElem? hi)
  cases hkind : timer.kind with
  | goIdle expiresAt | pillFade =>
    rw [hkind] at hpast
    cases hpast
  | reveal =>
    exact h.ofTimer hi helapsed false w.visible _ hown (hmap (by simp [hkind]))
      (hfade (by simp [hkind]))
  | fade =>
    unfold World.fired
    dsimp only
    split
    · rename_i hpending
      refine h.ofTimer hi helapsed w.faded false _ hown (fun d hlast hhidden => ?_) nofun
      rw [h.pending d hlast, hhidden] at hpending
      cases hpending
    · rename_i hpending
      refine h.ofTimer hi helapsed w.faded w.visible _ hown (hmap (by simp [hkind]))
        (fun d hlast hhidden => ?_)
      rw [h.pending d hlast] at hpending
      exact absurd hhidden hpending
  | map =>
    unfold World.fired
    dsimp only
    split
    · rename_i hmaps
      obtain ⟨hpending, -⟩ := Bool.and_eq_true_iff.mp hmaps
      refine h.ofTimer hi helapsed true true _ ?_ (fun _ _ _ => .inl rfl)
        (fun d hlast hhidden => ?_)
      · intro other hother
        rcases List.mem_append.mp hother with hother | hother
        · exact hown other hother
        · rw [List.mem_singleton.mp hother]
          rfl
      · rw [h.pending d hlast, hhidden] at hpending
        cases hpending
    · rename_i hmaps
      refine h.ofTimer hi helapsed w.faded w.visible _ hown (fun d hlast hhidden => .inl ?_)
        (hfade (by simp [hkind]))
      simpa [h.pending d hlast, hhidden] using hmaps

theorem step (h : Inv w) (hmeets : meets w e = true) (hw : w.step host e = some w') : Inv w' := by
  cases e with
  | apply state statusMessage =>
    obtain rfl := Option.some.inj hw
    exact h.apply hmeets
  | restyle =>
    obtain rfl := Option.some.inj hw
    exact h.restyle
  | tick ms =>
    simp only [World.step] at hw
    split at hw <;> cases hw
    rename_i hms
    exact h.pass hms
  | fire i elapsed =>
    simp only [World.step] at hw
    split at hw
    · rename_i timer hi
      split at hw <;> cases hw
      rename_i hdue
      exact h.fire hi hdue.2
    · cases hw

/-- A run in which idle never comes for what the pill still holds. -/
theorem run (h : Inv w) {may : World → Event → Bool} {events : List Event}
    (hmay : ∀ w, ∀ e ∈ events, may w e = true → meets w e = true)
    (hrun : w.run host may events = some w') : Inv w' := by
  induction events generalizing w with
  | nil =>
    obtain rfl := Option.some.inj hrun
    exact h
  | cons e events ih =>
    obtain ⟨next, hnext, hrun⟩ := Option.bind_eq_some_iff.mp hrun
    dsimp only at hnext
    split at hnext
    · rename_i hallowed
      have hmeets := hmay w e (List.mem_cons_self ..) hallowed
      exact ih (h.step hmeets hnext) (fun w e he => hmay w e (List.mem_cons_of_mem _ he)) hrun
    · cases hnext

end Inv

/-! ## Where idle comes for what is held -/

/-- Once the hold has expired, the timers that idle has armed do nothing to the pill. -/
theorem fired_late (hpending : w.pendingHidden = true)
    (hexpired : w.notice.isShowing w.now = false) (kind : TimerKind) :
    ∃ faded visible, w.fired kind 0 = { w with faded, visible } := by
  have hnow : w.now + 0 = w.now := add_zero _
  unfold World.fired
  dsimp only
  rw [hnow]
  cases kind with
  | goIdle expiresAt => exact ⟨w.faded, w.visible, if_neg (by simp [hexpired])⟩
  | pillFade => exact ⟨w.faded, false, rfl⟩
  | fade => exact ⟨w.faded, false, if_pos hpending⟩
  | map => exact ⟨w.faded, w.visible, if_neg (by simp [hpending])⟩
  | reveal => exact ⟨false, w.visible, rfl⟩

/-- All timers fire, one after another. -/
theorem exists_drained (host : Bool) (w : World) (hpending : w.pendingHidden = true)
    (hexpired : w.notice.isShowing w.now = false) (hdue : ∀ timer ∈ w.timers, timer.due ≤ w.now) :
    ∃ events faded visible, (∀ e ∈ events, e.isTimer = true) ∧
      w.run host (fun _ _ => true) events = some { w with faded, visible, timers := [] } := by
  generalize htimers : w.timers = timers at hdue
  induction timers generalizing w with
  | nil =>
    refine ⟨[], w.faded, w.visible, nofun, ?_⟩
    rw [← htimers]
    rfl
  | cons timer timers ih =>
    obtain ⟨faded, visible, hfired⟩ :=
      fired_late (w := { w with timers := w.timers.eraseIdx 0 }) hpending hexpired timer.kind
    obtain ⟨events, faded', visible', htimer, hrun⟩ :=
      ih { w with faded, visible, timers } hpending hexpired rfl
        (fun other hother => hdue other (List.mem_cons_of_mem _ hother))
    refine ⟨.fire 0 0 :: events, faded', visible', ?_, ?_⟩
    · intro e he
      rcases List.mem_cons.mp he with rfl | he
      · rfl
      · exact htimer e he
    · have hstep : w.step host (.fire 0 0) = some { w with faded, visible, timers } := by
        have hready : timer.due ≤ w.now ∧ (0 : ℚ) ≤ 0 :=
          ⟨hdue timer (List.mem_cons_self ..), le_refl 0⟩
        simp only [World.step, htimers, List.getElem?_cons_zero, if_pos hready]
        rw [htimers] at hfired
        exact congrArg some hfired
      unfold World.run
      rw [List.foldlM_cons]
      simp only [if_true, hstep]
      exact hrun

theorem run_tick (host : Bool) (w : World) {ms : ℚ} (hms : 0 ≤ ms) (events : List Event) :
    w.run host (fun _ _ => true) (.tick ms :: events)
      = { w with now := w.now + ms }.run host (fun _ _ => true) events := by
  unfold World.run
  rw [List.foldlM_cons]
  simp only [if_true, World.step, if_pos hms]
  rfl

theorem exists_late (timers : List Timer) (a b : ℚ) :
    ∃ late, a ≤ late ∧ b < late ∧ ∀ timer ∈ timers, timer.due ≤ late := by
  induction timers with
  | nil => exact ⟨max a (b + 1), le_max_left _ _, by simp, nofun⟩
  | cons timer timers ih =>
    obtain ⟨late, ha, hb, hdue⟩ := ih
    refine ⟨max late timer.due, le_max_of_le_left ha, lt_max_of_lt_left hb, ?_⟩
    intro other hother
    rcases List.mem_cons.mp hother with rfl | hother
    · exact le_max_right _ _
    · exact le_max_of_le_left (hdue other hother)

/-- What idle does where the pill holds a notice or an error. -/
theorem applyDescriptor_held (hshowing : w.notice.isShowing w.now = true) :
    ∃ faded visible timers, w.applyDescriptor host hidden =
      { w with faded, visible, timers, last := some hidden, pendingHidden := true } := by
  have hheld : ∃ timers, World.pillApply { w with last := some hidden } hidden =
      { w with timers, last := some hidden } := by
    unfold World.pillApply
    have hwaits : (hidden.hidden && w.notice.isShowing w.now) = true := by simp [hidden, hshowing]
    dsimp only
    rw [if_pos hwaits]
    split
    · exact ⟨_, rfl⟩
    · exact ⟨w.timers, rfl⟩
  obtain ⟨timers, hheld⟩ := hheld
  unfold World.applyDescriptor
  simp only [hidden, if_true] at hheld ⊢
  rw [hheld]
  unfold World.setHiddenFaded
  cases hvisible : w.visible with
  | false => exact ⟨w.faded, false, timers, rfl⟩
  | true => exact ⟨true, true, timers ++ [⟨.fade, w.now + fadeMs⟩], rfl⟩

/-- What the pill holds is what was applied to the window before. -/
theorem Inv.live_of_severity (h : Inv w) (hsome : w.descriptor.severity ≠ none) :
    w.live = some w.descriptor := by
  cases hhidden : w.descriptor.hidden with
  | true =>
    rw [h.hidden_of_last hhidden] at hsome
    exact absurd rfl hsome
  | false =>
    rw [h.descriptor] at hsome hhidden ⊢
    cases hlast : w.last with
    | none =>
      rw [hlast] at hsome
      exact absurd rfl hsome
    | some d =>
      rw [hlast] at hhidden
      exact h.live d hlast hhidden

/-- Idle that comes for an error does not take it away, and the timers of idle that comes for a
notice run out with the notice still there. -/
theorem Inv.not_right (h : Inv w) (hshowing : w.notice.isShowing w.now = true)
    (hright : ∀ later w'', (∀ e ∈ later, e.isTimer = true) →
      (w.applyDescriptor host Hud.hidden).run host (fun _ _ => true) later = some w'' →
        Right w'') : False := by
  obtain ⟨faded, visible, timers, hheld⟩ : ∃ faded visible timers,
      w.applyDescriptor host Hud.hidden =
        { w with faded, visible, timers, last := some Hud.hidden, pendingHidden := true } :=
    applyDescriptor_held hshowing
  rw [hheld] at hright
  have hne : ∀ severity, w.descriptor.severity = some severity → w.descriptor ≠ Hud.hidden := by
    intro severity hseverity hidle
    rw [hidle] at hseverity
    cases hseverity
  rcases h.isShowing_iff.mp hshowing with hcritical | ⟨hnotice, -⟩
  · have hlive := h.live_of_severity (by simp [hcritical])
    have hgoes := (hright [] _ nofun rfl).replaced w.descriptor Hud.hidden hlive
      (by simp [hcritical]) rfl
    exact hne _ hcritical hgoes
  · have hlive := h.live_of_severity (by simp [hnotice])
    obtain ⟨late, hle, hexpired, hdue⟩ :=
      exists_late timers w.now (w.since + holdMsFor w.descriptor.statusText)
    have hover : w.notice.isShowing late = false := by
      rw [h.notice, ← Bool.not_eq_true, slotOf_isShowing_iff]
      simp [hnotice, hexpired]
    obtain ⟨events, faded', visible', htimer, hrun⟩ := exists_drained host
      { w with
        now := late, faded, visible, timers, last := some Hud.hidden, pendingHidden := true }
      rfl hover hdue
    have htimers : ∀ e ∈ Event.tick (late - w.now) :: events, e.isTimer = true := by
      intro e he
      rcases List.mem_cons.mp he with rfl | he
      · rfl
      · exact htimer e he
    have hlast := hright _ _ htimers (by
      rw [run_tick host _ (sub_nonneg.mpr hle)]
      simp only [add_sub_cancel]
      exact hrun)
    have hexpiredAll : ∀ live, w.live = some live →
        ¬(live.severity = some .recoverable ∧ late ≤ w.since + holdMsFor live.statusText) := by
      rintro live heq ⟨-, hholding⟩
      obtain rfl := Option.some.inj (hlive.symm.trans heq)
      exact absurd hholding (not_le_of_gt hexpired)
    have hgone := hlast.gone Hud.hidden rfl rfl hexpiredAll rfl
    exact hne _ hnotice hgone.1

/-- **A held notice is shown for its hold and then goes**, in every run in which idle never comes
for a notice that is still held or for an error; and where it does, the timers that follow end with
something on the pill that was to be gone. -/
theorem held_and_gone (host : Bool) {events : List Event} {w : World}
    (hrun : World.run host meets {} events = some w) :
    Right w ∧ ∀ e w', w.step host e = some w' →
      (meets w e = true ↔ ∀ later w'', (∀ e ∈ later, e.isTimer = true) →
        w'.run host (fun _ _ => true) later = some w'' → Right w'') := by
  have h : Inv w := Inv.run inv_init (fun _ _ _ hmeets => hmeets) hrun
  refine ⟨h.right, fun e w' hw => ⟨fun hmeets later w'' hlater hrun => ?_, fun hright => ?_⟩⟩
  · refine (Inv.run (h.step hmeets hw) (fun w e he _ => ?_) hrun).right
    have htimer := hlater e he
    cases e <;> first | rfl | cases htimer
  · rw [← Bool.not_eq_false]
    intro hmeets
    cases e with
    | restyle | tick ms | fire i elapsed => cases hmeets
    | apply state statusMessage =>
      simp only [meets, Bool.not_eq_false', Bool.and_eq_true] at hmeets
      obtain rfl := Option.some.inj hw
      rw [eq_hidden_of_hidden hmeets.1] at hright
      exact h.not_right hmeets.2 hright

/-- A dictation that heard nothing, whose notice has expired when idle comes. -/
theorem noSpeech_gone :
    ∃ w, World.run false meets {}
        [.apply none "", .apply (some "recording") "Listening",
          .apply (some "notice") "No speech detected", .tick 8001, .apply (some "idle") ""]
          = some w ∧
      Right w ∧ ∀ e w', w.step false e = some w' →
        (meets w e = true ↔ ∀ later w'', (∀ e ∈ later, e.isTimer = true) →
          w'.run false (fun _ _ => true) later = some w'' → Right w'') := by
  have hsome : (World.run false meets {}
      [.apply none "", .apply (some "recording") "Listening",
        .apply (some "notice") "No speech detected", .tick 8001,
          .apply (some "idle") ""]).isSome := by
    decide +kernel
  obtain ⟨w, hrun⟩ := Option.isSome_iff_exists.mp hsome
  exact ⟨w, hrun, held_and_gone false hrun⟩

/-- Idle comes 6 s into the hold of a notice of 8 s: the window is unmapped 2 s before it ends, and
when every timer has fired the pill still shows the notice. -/
theorem notice_unmapped :
    ((World.run false (fun _ _ => true) {}
        [.apply none "", .apply (some "notice") "No speech detected", .fire 0 0, .tick 6000,
          .apply (some "idle") "", .tick 100, .fire 1 0]).map
      fun w => (w.now, w.descriptor.key, w.visible)) = some (6100, .notice, false) ∧
    ((World.run false (fun _ _ => true) {}
        [.apply none "", .apply (some "notice") "No speech detected", .fire 0 0, .tick 6000,
          .apply (some "idle") "", .tick 100, .fire 1 0, .tick 1901, .fire 0 0]).map
      fun w => (w.now, w.descriptor.key, w.timers)) = some (8001, .notice, []) := by
  decide +kernel

end Hud

end Myna
