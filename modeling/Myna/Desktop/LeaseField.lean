import Myna.Desktop.LeaseClock

/-!
# Myna — a lease writes into one field

What the invariant of a run says of a lease that is held.

* **`step_not_held`**, **`never_held_again`** — a lease that is not held is not held again;
* **`held_focus`** — where focus is while a lease stands held;
* **`step_from_blip`**, **`survived`** — how a lease outlives a FocusOut;
* **`lease_writes_one_field`** — the lease over every run.
-/

namespace Myna

namespace Desktop

namespace Ibus

open Relation (ReflTransGen)

theorem Reachable.run {w w' : World} (h : Reachable w) (hrun : ReflTransGen Step w w') :
    Reachable w' := ReflTransGen.trans h hrun

/-! ## A lease that was lost -/

namespace EngineState

variable {s : EngineState} {id : ℕ}

theorem heldBy_of_lost {lease : Lease} (h : lease.binding = .lost) : lease.heldBy id = false := by
  simp [Lease.heldBy, h]

/-- The lease is the same, or lost. -/
theorem heldBy_settle {lease lease' : Lease} (hid : lease'.id = lease.id)
    (hbinding : lease.binding = .lost → lease'.binding = .lost) (h : lease.heldBy id = false) :
    lease'.heldBy id = false := by
  unfold Lease.heldBy at *
  rw [hid]
  by_cases heq : lease.id = id
  · have hlost : lease.binding = .lost := by simpa [heq] using h
    simp [hbinding hlost]
  · simp [heq]

theorem focus_lost (change : FocusChange) (h : s.lease.binding = .lost) :
    (s.focus change).lease.binding = .lost := by
  have hfocused : (s.focused change).binding = .lost := by
    unfold focused Lease.focus
    rcases change with ctx | path
    · cases ctx <;> simp [h]
    · simp [h]
  rcases (s.focus_eq change).2.2.2 with ⟨-, hl, -⟩ | ⟨-, hl, -⟩ | ⟨hl, -⟩
  · rw [hl]
    exact hfocused
  · rw [hl]
    exact hfocused
  · exact hl

end EngineState

open EngineState World

/-- Lease ids are not used again. -/
theorem step_nextLease {w w' : World} (hstep : Step w w') :
    w.state.nextLease ≤ w'.state.nextLease := by
  cases hstep with
  | tick | acquire => exact Nat.le_refl _
  | mint => exact Nat.le_succ _
  | focus call hobeys =>
    rw [focus_state, (w.state.focus_eq call.change).2.1]
  | wake g hg hdue => exact Nat.le_of_eq (wake_cases w.state g).2.1.symm
  | activated id =>
    unfold World.activated EngineState.activated
    dsimp only
    split <;> exact Nat.le_refl _
  | activatedCurrent =>
    unfold EngineState.activatedCurrent
    dsimp only
    split <;> exact Nat.le_refl _
  | unfocus id =>
    unfold EngineState.unfocus
    dsimp only
    split <;> exact Nat.le_refl _
  | write id hid hacquired hheld =>
    unfold EngineState.wrote
    dsimp only
    split <;> exact Nat.le_refl _
  | surrounding c =>
    unfold EngineState.surrounding
    dsimp only
    split <;> exact Nat.le_refl _
  | retire id =>
    unfold EngineState.retire
    dsimp only
    split <;> exact Nat.le_refl _
  | taken id =>
    unfold EngineState.taken
    dsimp only
    split <;> exact Nat.le_refl _

theorem activated_not_held {s : EngineState} {id id' : ℕ} (h : s.lease.heldBy id = false) :
    (s.activated id').lease.heldBy id = false := by
  unfold EngineState.activated
  split
  case isFalse => exact h
  case isTrue hheld =>
    refine heldBy_settle (activated_lease _ _).1 ?_ h
    intro hlost
    rw [heldBy_of_lost hlost] at hheld
    cases hheld

/-- A step does not make a lease held that was not. -/
theorem step_not_held {w w' : World} (hstep : Step w w') {id : ℕ}
    (hid : id < w.state.nextLease) (h : w.state.lease.heldBy id = false) :
    w'.state.lease.heldBy id = false := by
  cases hstep with
  | tick elapsed hdue => exact h
  | focus call hobeys =>
    refine heldBy_settle (focus_lease_id w call) ?_ h
    intro hlost
    rw [focus_state]
    exact focus_lost _ hlost
  | activated id' => exact activated_not_held h
  | activatedCurrent =>
    rw [activatedCurrent_eq]
    exact activated_not_held h
  | wake g hg hdue =>
    obtain ⟨-, -, -, hsame, -, -, hcases⟩ := wake_cases w.state g
    refine heldBy_settle hsame ?_ h
    intro hlost
    rcases hcases with ⟨-, hl, -⟩ | ⟨-, hl, -⟩ | ⟨-, -, hl, -⟩
    · exact hl
    · rw [hl]
      exact hlost
    · rw [hl]
      exact hlost
  | mint =>
    -- the new lease has a new id
    have hne : w.state.nextLease ≠ id := by omega
    simp [EngineState.mint, Lease.heldBy, hne]
  | unfocus id' =>
    unfold EngineState.unfocus
    dsimp only
    split
    case isFalse => exact h
    case isTrue hp =>
      refine @heldBy_settle _ w.state.lease _ rfl ?_ h
      intro hlost
      rw [hp.2] at hlost
      cases hlost
  | acquire hnot => exact h
  | write id' hid' hacquired hheld =>
    unfold EngineState.wrote
    dsimp only
    split <;> exact h
  | surrounding c =>
    unfold EngineState.surrounding
    dsimp only
    split <;> exact h
  | retire id' =>
    unfold EngineState.retire
    dsimp only
    split
    · exact h
    · exact @heldBy_settle _ w.state.lease _ rfl (fun _ => rfl) h
  | taken id' =>
    unfold EngineState.taken
    dsimp only
    split
    · exact @heldBy_settle _ w.state.lease _ rfl (fun _ => rfl) h
    · exact h

theorem never_held_again {w w' : World} (hrun : ReflTransGen Step w w') {id : ℕ}
    (hid : id < w.state.nextLease) (h : w.state.lease.heldBy id = false) :
    w'.state.lease.heldBy id = false := by
  have hboth : w'.state.lease.heldBy id = false ∧ id < w'.state.nextLease := by
    induction hrun with
    | refl => exact ⟨h, hid⟩
    | tail _ hstep ih =>
      exact ⟨step_not_held hstep ih.2 ih.1, Nat.lt_of_lt_of_le ih.2 (step_nextLease hstep)⟩
  exact hboth.1

/-! ## Where focus is -/

/-- The latest focus call was a focus-in on what the lease is bound to. -/
def World.OnField (w : World) : Prop :=
  match w.state.lease.binding with
  | .unnamed => w.latest = some (.focusIn none) ∧ w.out = false
  | .context path => w.FocusedOn path
  | _ => False

theorem held_focus {w : World} (h : w.Inv) (hacquired : w.acquired = true)
    (hheld : w.state.lease.standing w.state.lease.id = some .held) :
    w.moved = false ∨ w.OnField := by
  have hagrees := h.agrees
  unfold Agrees at hagrees
  unfold OnField
  obtain ⟨-, hb | hb | hb | ⟨path, hb⟩⟩ := standing_held hheld
  · rw [hb] at hagrees
    rw [hagrees] at hacquired
    cases hacquired
  · rw [hb] at hagrees ⊢
    exact .inr ⟨hagrees.1, hagrees.2.1⟩
  · rw [hb] at hagrees
    exact .inl (hagrees hacquired)
  · rw [hb] at hagrees ⊢
    exact .inr hagrees

/-! ## How a FocusOut is outlived -/

namespace World

/-- Lease `id` is away in blip `b` since `t`: from the field at `path`, or from an unnamed focus. -/
def Gone (w : World) (id b t : ℕ) (path : Option String) : Prop :=
  w.state.lease.id = id ∧ w.left = t ∧
    match path with
    | some path => ∃ act back, w.state.lease.binding = .away path b act back
    | none => w.state.lease.binding = .left b

/-- Focus came within the grace of `t`, or of an activation before it. -/
def Timely (w : World) (t : ℕ) : Prop :=
  t ≤ w.returned ∧ (w.returned ≤ t + FOCUS_BLIP_GRACE ∨
    ∃ a ∈ w.activations, a ≤ w.returned ∧ w.returned ≤ a + FOCUS_BLIP_GRACE)

/-- Focus is back where it was at `t`, and an activation explains that it was away; a focus that was
not named and not written to is followed by any other. -/
def Back (w : World) (t : ℕ) : Option String → Prop
  | some path => w.state.lease.binding = .context path ∧ w.FocusedOn path ∧ w.Timely t ∧
      ∃ a ∈ w.activations, a ≤ t + ACTIVATION_WINDOW ∧ t ≤ a + ACTIVATION_WINDOW
  | none => w.OnField ∧ w.Timely t

variable {w : World} {id b t : ℕ} {path : Option String}

theorem Gone.away (h : w.Gone id b t path) : w.state.lease.away = some b := by
  obtain ⟨-, -, hbinding⟩ := h
  unfold Lease.away
  cases path with
  | some path =>
    obtain ⟨act, back, hb⟩ := hbinding
    rw [hb]
  | none =>
    have hb : w.state.lease.binding = .left b := hbinding
    rw [hb]

theorem Gone.clock (h : w.Gone id b t path) (hinv : w.Inv) : ∃ act, w.Clock b act := by
  obtain ⟨act, hclock, -⟩ := clock_of_binding hinv h.away
  exact ⟨act, hclock⟩

/-- A focus-in while the blip lasts is timely. -/
theorem focusIn_timely (h : w.Gone id b t path) (hinv : w.Inv) (ctx : Context) (named : Bool) :
    (w.focus (.focusIn ctx named)).Timely t := by
  obtain ⟨act, hclock⟩ := h.clock hinv
  have hgrace := in_grace hinv hclock
  have hleft := hinv.left
  obtain ⟨-, rfl, -⟩ := h
  refine ⟨hleft, ?_⟩
  show w.state.now ≤ w.left + FOCUS_BLIP_GRACE ∨
    ∃ a ∈ w.activations, a ≤ w.state.now ∧ w.state.now ≤ a + FOCUS_BLIP_GRACE
  cases hat : w.state.lease.activatedAt with
  | none =>
    rw [hat, Option.getD_none, max_self] at hgrace
    exact .inl hgrace
  | some a =>
    rw [hat, Option.getD_some] at hgrace
    have hmem := hinv.activatedAt a hat
    have hcases : w.state.now ≤ w.left + FOCUS_BLIP_GRACE ∨
        w.state.now ≤ a + FOCUS_BLIP_GRACE := by omega
    exact hcases.imp_right fun hle => ⟨a, hmem, hinv.past a hmem, hle⟩

/-- A focus call in a blip: it lasts, it ends the lease, or focus is back. -/
theorem focus_from_blip (h : w.Gone id b t path) (hinv : w.Inv) {call : FocusCall}
    (hobeys : w.Obeys call) :
    (w.focus call).Gone id b t path ∨ (w.focus call).state.lease.heldBy id = false ∨
      (w.focus call).Back t path := by
  have haway := h.away
  have hid := focus_lease_id w call
  have hagrees := hinv.agrees
  unfold Agrees at hagrees
  rcases (w.state.focus_eq call.change).2.2.2 with ⟨hbegan, hl, -⟩ | ⟨hbegan, hl, -⟩ | ⟨hl, -⟩
  · -- no other blip begins in a blip
    exfalso
    obtain ⟨-, -, hbinding⟩ := h
    rcases began_cases (stale_blip hinv) hbegan with ⟨hb, -⟩ | ⟨p, out, -, -, hb | ⟨hb, -⟩⟩
    all_goals
      unfold Lease.away at haway
      rw [hb] at haway
      cases haway
  · have hnotbegan : (w.state.focus call.change).lease.away ≠ some w.state.nextBlip := by
      rw [hl]
      exact hbegan
    have hleft : (w.focus call).left = w.left := by
      rw [focus_left, if_neg hnotbegan]
    have hstate : (w.focus call).state.lease = w.state.focused call.change := by
      rw [focus_state, hl]
    have htimely := fun ctx named => focusIn_timely h hinv ctx named
    obtain ⟨rfl, rfl, hbinding⟩ := h
    unfold EngineState.focused at hstate
    cases path with
    | some path =>
      obtain ⟨act, back, hb⟩ := hbinding
      rw [hb] at hagrees
      obtain ⟨-, hexplained, -⟩ := hagrees
      rcases call with ⟨ctx, named⟩ | out
      · cases named with
        | false =>
          refine .inr (.inl (heldBy_of_lost ?_))
          rw [hstate]
          simp [FocusCall.change, Lease.focus, hb]
        | true =>
          cases hf : ctx.isFake with
          | true =>
            refine .inl ⟨hid, hleft, act, back, ?_⟩
            rw [hstate]
            simp only [FocusCall.change, Lease.focus, hb, hf, if_true]
          | false =>
            by_cases hp : path = ctx.path
            · cases hact : act with
              | false =>
                refine .inl ⟨hid, hleft, false, true, ?_⟩
                rw [hstate]
                simp only [FocusCall.change, Lease.focus, hb, hf, hact, if_true, if_pos hp,
                  Bool.false_eq_true, if_false, Bool.not_false]
              | true =>
                refine .inr (.inr ⟨?_, ?_, htimely ctx true, hexplained hact⟩)
                · rw [hstate]
                  simp only [FocusCall.change, Lease.focus, hb, hf, hact, if_true, if_pos hp,
                    Bool.false_eq_true, if_false, Bool.not_true]
                · rw [hp]
                  exact focusIn_on ctx
            · refine .inr (.inl (heldBy_of_lost ?_))
              rw [hstate]
              simp [FocusCall.change, Lease.focus, hb, hf, hp]
      · refine .inl ⟨hid, hleft, act, false, ?_⟩
        rw [hstate]
        simp only [FocusCall.change, Lease.focus, hb]
    | none =>
      have hb : w.state.lease.binding = .left b := hbinding
      rcases call with ⟨ctx, named⟩ | out
      · cases named with
        | false =>
          refine .inr (.inr ⟨?_, htimely ctx false⟩)
          unfold OnField
          rw [hstate]
          simp only [FocusCall.change, Lease.focus, hb]
          exact ⟨rfl, rfl⟩
        | true =>
          cases hf : ctx.isFake with
          | true =>
            refine .inl ⟨hid, hleft, ?_⟩
            rw [hstate]
            simp only [FocusCall.change, Lease.focus, hb, hf, if_true]
          | false =>
            refine .inr (.inr ⟨?_, htimely ctx true⟩)
            unfold OnField
            rw [hstate]
            simp only [FocusCall.change, Lease.focus, hb, hf, if_true, Bool.false_eq_true, if_false]
            exact focusIn_on ctx
      · refine .inl ⟨hid, hleft, ?_⟩
        rw [hstate]
        simp only [FocusCall.change, Lease.focus, hb]
  · refine .inr (.inl (heldBy_of_lost ?_))
    rw [focus_state]
    exact hl

/-- A step that leaves the lease, the blip and the clock of focus alone. -/
theorem Gone.keep (h : w.Gone id b t path) {w' : World}
    (hlease : w'.state.lease.id = w.state.lease.id)
    (hbinding : w'.state.lease.binding = w.state.lease.binding) (hleft : w'.left = w.left) :
    w'.Gone id b t path := by
  obtain ⟨hid, ht, hb⟩ := h
  refine ⟨hlease.trans hid, hleft.trans ht, ?_⟩
  rw [hbinding]
  exact hb

theorem Gone.binding_ne (h : w.Gone id b t path) :
    w.state.lease.binding ≠ .pending ∧ w.state.lease.binding ≠ .unnamed ∧
      ∀ p, w.state.lease.binding ≠ .context p := by
  obtain ⟨-, -, hbinding⟩ := h
  cases path with
  | some path =>
    obtain ⟨act, back, hb⟩ := hbinding
    rw [hb]
    simp
  | none =>
    have hb : w.state.lease.binding = .left b := hbinding
    rw [hb]
    simp

/-- The activation that focus was back for, or one that explains the blip. -/
theorem activated_from_blip (h : w.Gone id b t path) (hinv : w.Inv) (id' : ℕ) :
    (w.activated id').Gone id b t path ∨ (w.activated id').Back t path := by
  unfold World.activated EngineState.activated
  by_cases hheld : w.state.lease.heldBy id' = true
  · rw [if_pos hheld, if_pos hheld]
    have hagrees := hinv.agrees
    unfold Agrees at hagrees
    obtain ⟨rfl, rfl, hbinding⟩ := h
    cases path with
    | none =>
      have hb : w.state.lease.binding = .left b := hbinding
      refine .inl ⟨(activated_lease _ _).1, rfl, ?_⟩
      simp [Lease.activated, hb]
    | some path =>
      obtain ⟨act, back, hb⟩ := hbinding
      rw [hb] at hagrees
      obtain ⟨hclock, -, hback⟩ := hagrees
      cases back with
      | false =>
        refine .inl ⟨(activated_lease _ _).1, rfl, true, false, ?_⟩
        simp [Lease.activated, hb]
      | true =>
        obtain ⟨rfl, hfocused, hreturned, -⟩ := hback rfl
        have hwindow := in_window hinv hclock
        have hle : ACTIVATION_WINDOW ≤ FOCUS_BLIP_GRACE := by decide
        have hlate := hinv.returned
        refine .inr ⟨by simp [Lease.activated, hb], hfocused, ⟨hreturned, .inl ?_⟩,
          w.state.now, by simp, hwindow, Nat.le_add_right_of_le hinv.left⟩
        show w.returned ≤ w.left + FOCUS_BLIP_GRACE
        omega
  · rw [if_neg hheld, if_neg hheld]
    exact .inl (h.keep rfl rfl rfl)

/-- **A step in a blip**: the blip lasts, or it ends the lease, or focus is back. -/
theorem step_from_blip (h : w.Gone id b t path) (hinv : w.Inv) {w' : World}
    (hstep : Step w w') :
    w'.Gone id b t path ∨ w'.state.lease.heldBy id = false ∨ w'.Back t path := by
  obtain ⟨hpending, hunnamed, hcontext⟩ := h.binding_ne
  cases hstep with
  | tick elapsed hdue => exact .inl (h.keep rfl rfl rfl)
  | focus call hobeys => exact focus_from_blip h hinv hobeys
  | activated id' => exact (activated_from_blip h hinv id').imp_right .inr
  | activatedCurrent =>
    rw [activatedCurrent_eq]
    exact (activated_from_blip h hinv w.state.lease.id).imp_right .inr
  | wake g hg hdue =>
    obtain ⟨-, -, -, hid, -, -, hcases⟩ := wake_cases w.state g
    rcases hcases with ⟨-, hl, -⟩ | ⟨-, hl, -⟩ | ⟨-, -, hl, -⟩
    · exact .inr (.inl (heldBy_of_lost hl))
    · exact .inl (h.keep hid (congrArg Lease.binding hl) rfl)
    · exact .inl (h.keep hid (congrArg Lease.binding hl) rfl)
  | mint =>
    have hlt := hinv.id
    have hne : w.state.nextLease ≠ id := by
      have := h.1
      omega
    exact .inr (.inl (by simp [EngineState.mint, Lease.heldBy, hne]))
  | unfocus id' =>
    unfold EngineState.unfocus
    rw [if_neg (fun hp => hpending hp.2)]
    exact .inl (h.keep rfl rfl rfl)
  | acquire hnot => exact .inl (h.keep rfl rfl rfl)
  | write id' hid' hacquired hheld =>
    unfold EngineState.wrote
    refine .inl (h.keep ?_ ?_ rfl) <;> dsimp only <;> split <;> rfl
  | surrounding c =>
    unfold EngineState.surrounding
    refine .inl (h.keep ?_ ?_ rfl) <;> dsimp only <;> split <;> rfl
  | retire id' =>
    unfold EngineState.retire
    dsimp only
    split
    · exact .inl (h.keep rfl rfl rfl)
    · exact .inr (.inl (heldBy_of_lost rfl))
  | taken id' =>
    unfold EngineState.taken
    dsimp only
    split
    · exact .inr (.inl (heldBy_of_lost rfl))
    · exact .inl (h.keep rfl rfl rfl)

/-- **A blip is outlived only by focus that comes back.** -/
theorem survived (h : w.Gone id b t path) (hreach : Reachable w) {w' : World}
    (hrun : ReflTransGen Step w w') (hheld : w'.state.lease.standing id = some .held) :
    ∃ back, ReflTransGen Step w back ∧ ReflTransGen Step back w' ∧ back.Back t path := by
  have hby := (standing_held hheld).1
  rcases StepSystem.stays_or_leaves (P := fun w => w.Gone id b t path) hrun h with hgone | ⟨x, y,
    hx, hgone, hxy, hout, hy⟩
  · -- while the blip lasts, the lease does not stand held
    obtain ⟨hpending, hunnamed, hcontext⟩ := hgone.binding_ne
    have haway := hgone.away
    rcases (standing_held hheld).2 with hb | hb | hb | ⟨p, hb⟩
    · exact absurd hb hpending
    · exact absurd hb hunnamed
    · unfold Lease.away at haway
      rw [hb] at haway
      cases haway
    · exact absurd hb (hcontext p)
  · have hinv := reachable_inv (hreach.run hx)
    rcases step_from_blip hgone hinv hxy with hstay | hlost | hback
    · exact absurd hstay hout
    · have hid : id < y.state.nextLease := by
        have hlt := hinv.id
        rw [hgone.1] at hlt
        exact Nat.lt_of_lt_of_le hlt (step_nextLease hxy)
      rw [never_held_again hy hid hlost] at hby
      cases hby
    · exact ⟨y, hx.tail hxy, hy, hback⟩

/-- The run after focus left at `t` has focus come back before `w'`. -/
def ComesBack (w w' : World) (t : ℕ) (path : Option String) : Prop :=
  ∃ back, ReflTransGen Step w back ∧ ReflTransGen Step back w' ∧ back.Back t path

/-- What a FocusOut of a focused lease asks of a run in which the lease stands held again. -/
def OutlivesFocusOut (w : World) (out : Option String) (w' : World) : Prop :=
  match w.state.lease.binding with
  | .context path => ComesBack (w.focus (.focusOut out)) w' w.state.now (some path)
  | .unnamed =>
    if w.state.lease.wrote then
      ∃ path, out = some path ∧ w.place = some path ∧
        ComesBack (w.focus (.focusOut out)) w' w.state.now (some path)
    else ComesBack (w.focus (.focusOut out)) w' w.state.now none
  | .unfocused => False
  | _ => True

/-- A FocusOut that begins a blip. -/
theorem focusOut_gone {out : Option String}
    (hbegan : (w.state.focused (.focusOut out)).away = some w.state.nextBlip)
    (hpath : match path with
      | some path => ∃ act, (w.state.focused (.focusOut out)).binding
          = .away path w.state.nextBlip act false
      | none => (w.state.focused (.focusOut out)).binding = .left w.state.nextBlip) :
    (w.focus (.focusOut out)).state.lease.heldBy w.state.lease.id = false ∨
      (w.focus (.focusOut out)).Gone w.state.lease.id w.state.nextBlip w.state.now path := by
  rcases (w.state.focus_eq (.focusOut out)).2.2.2 with ⟨-, hl, -⟩ | ⟨hnot, -⟩ | ⟨hl, -⟩
  · have hstate : (w.focus (.focusOut out)).state.lease = w.state.focused (.focusOut out) := hl
    refine .inr ⟨focus_lease_id w _, ?_, ?_⟩
    · rw [focus_left]
      apply if_pos
      show (w.state.focus (.focusOut out)).lease.away = _
      rw [hl]
      exact hbegan
    · rw [hstate]
      cases path with
      | some path =>
        obtain ⟨act, hb⟩ := hpath
        exact ⟨act, false, hb⟩
      | none => exact hpath
  · exact absurd hbegan hnot
  · exact .inl (heldBy_of_lost hl)

theorem focusOut_survived (hreach : Reachable w) {out : Option String} {w' : World}
    (hobeys : w.Obeys (.focusOut out))
    (hrun : ReflTransGen Step (w.focus (.focusOut out)) w')
    (hheld : w'.state.lease.standing w.state.lease.id = some .held) :
    w.OutlivesFocusOut out w' := by
  have hinv := reachable_inv hreach
  have hby := (standing_held hheld).1
  have hstep : Step w (w.focus (.focusOut out)) := .focus w _ hobeys
  have hreach' : Reachable (w.focus (.focusOut out)) := hreach.run (.single hstep)
  have hid : w.state.lease.id < (w.focus (.focusOut out)).state.nextLease :=
    Nat.lt_of_lt_of_le hinv.id (step_nextLease hstep)
  have hkept : (w.focus (.focusOut out)).state.lease.heldBy w.state.lease.id ≠ false := by
    intro hlost
    rw [never_held_again hrun hid hlost] at hby
    cases hby
  have hagrees := hinv.agrees
  unfold Agrees at hagrees
  unfold OutlivesFocusOut
  have hlostcase : (w.state.focused (.focusOut out)).binding ≠ .lost := by
    intro hlost
    rcases (w.state.focus_eq (.focusOut out)).2.2.2 with ⟨-, hl, -⟩ | ⟨-, hl, -⟩ | ⟨hl, -⟩
    · exact hkept (heldBy_of_lost ((congrArg Lease.binding hl).trans hlost))
    · exact hkept (heldBy_of_lost ((congrArg Lease.binding hl).trans hlost))
    · exact hkept (heldBy_of_lost hl)
  have hgone : ∀ path, (w.focus (.focusOut out)).state.lease.heldBy w.state.lease.id = false ∨
      (w.focus (.focusOut out)).Gone w.state.lease.id w.state.nextBlip w.state.now path →
      ComesBack (w.focus (.focusOut out)) w' w.state.now path := by
    intro path hcases
    exact survived (hcases.resolve_left hkept) hreach' hrun hheld
  unfold EngineState.focused at hlostcase
  cases hb : w.state.lease.binding with
  | context path =>
    apply hgone (some path)
    apply focusOut_gone
    · simp [EngineState.focused, Lease.focus, hb, Lease.away]
    · exact ⟨_, by simp only [EngineState.focused, Lease.focus, hb]; rfl⟩
  | unnamed =>
    rw [hb] at hagrees
    obtain ⟨-, hout, hcurrent⟩ := hagrees
    cases hw : w.state.lease.wrote with
    | false =>
      apply hgone none
      apply focusOut_gone
      · simp [EngineState.focused, Lease.focus, hb, hw, Lease.away]
      · simp [EngineState.focused, Lease.focus, hb, hw]
    | true =>
      cases out with
      | none =>
        refine absurd ?_ hlostcase
        simp [Lease.focus, hb, hw]
      | some path =>
        obtain ⟨ctx, hctx⟩ := Option.isSome_iff_exists.mp hcurrent
        refine ⟨path, rfl, ?_, ?_⟩
        · rw [place, hout, hctx, hobeys path rfl ctx hctx]
          rfl
        · apply hgone (some path)
          apply focusOut_gone
          · simp [EngineState.focused, Lease.focus, hb, hw, Lease.away]
          · exact ⟨_, by simp only [EngineState.focused, Lease.focus, hb, hw]; rfl⟩
  | unfocused =>
    refine absurd ?_ hlostcase
    simp [Lease.focus, hb]
  | pending | left | away | lost => trivial

end World

/-! ## The lease over every run -/

/-- An expiry ends only the blip it was set for, and so only the lease that was away in it. -/
theorem wake_own {w : World} (h : w.Inv) (g : Grace) :
    (w.state.wake g).lease = w.state.lease ∨
      w.state.lease.away = some g.blip ∧ ∀ id, (g.blip, id) ∈ w.blips ↔ id = w.state.lease.id := by
  obtain ⟨-, -, -, -, -, -, hcases⟩ := World.wake_cases w.state g
  rcases hcases with ⟨haway, -, -⟩ | ⟨-, hl, -⟩ | ⟨-, -, hl, -⟩
  · refine .inr ⟨haway, fun id => ⟨fun hmem => ?_, ?_⟩⟩
    · have := List.inj_on_of_nodup_map h.once hmem (h.owned _ haway) rfl
      exact (Prod.mk.inj this).2
    · rintro rfl
      exact h.owned _ haway
  · exact .inl hl
  · exact .inl hl

/-- **A lease writes into one field.** -/
theorem lease_writes_one_field (w : World) (hreach : Reachable w) :
    (∀ w' id, ReflTransGen Step w w' → id < w.state.nextLease →
      w.state.lease.heldBy id = false → w'.state.lease.heldBy id = false) ∧
    (w.acquired = true → w.state.lease.standing w.state.lease.id = some .held →
      w.moved = false ∨ w.OnField) ∧
    (∀ id p q, (id, p) ∈ w.writes → (id, q) ∈ w.writes → p = q) ∧
    (∀ out w', w.Obeys (.focusOut out) → ReflTransGen Step (w.focus (.focusOut out)) w' →
      w'.state.lease.standing w.state.lease.id = some .held → w.OutlivesFocusOut out w') ∧
    ∀ g, (w.state.wake g).lease = w.state.lease ∨
      w.state.lease.away = some g.blip ∧
        ∀ id, (g.blip, id) ∈ w.blips ↔ id = w.state.lease.id := by
  have h := reachable_inv hreach
  refine ⟨fun w' id hrun hid hlost => never_held_again hrun hid hlost, held_focus h, h.same,
    fun out w' hobeys hrun hheld => World.focusOut_survived hreach hobeys hrun hheld, wake_own h⟩

/-- A field, and another. -/
def editor : Context := ⟨"/ic/1", "gtk4-im:editor"⟩

def browser : Context := ⟨"/ic/2", "gtk4-im:browser"⟩

/-- A lease that was minted, focused on the editor and acquired. -/
def acquiredOn (named : Bool) : World :=
  let minted : World := { state := ({} : EngineState).mint.2 }
  { minted.focus (.focusIn editor named) with acquired := true, moved := false }

theorem acquiredOn_reachable (named : Bool) : Reachable (acquiredOn named) := by
  have hmint : Reachable { state := ({} : EngineState).mint.2 } := .single (.mint {})
  refine (hmint.tail (.focus _ (.focusIn editor named) (.inl rfl))).tail (.acquire _ ?_)
  cases named <;> decide

/-- A write into the editor. -/
def typed : World :=
  { acquiredOn true with
    state := (acquiredOn true).state.wrote 1, writes := [(1, (acquiredOn true).place)] }

theorem typed_into_editor :
    (1, (acquiredOn true).place) ∈ typed.writes ∧ (acquiredOn true).place = some "/ic/1" := by
  have hreach : Reachable typed :=
    (acquiredOn_reachable true).tail (.write _ 1 rfl rfl (by decide))
  have hwritten : (1, (acquiredOn true).place) ∈ typed.writes := by decide
  exact ⟨hwritten, (lease_writes_one_field typed hreach).2.2.1 1 _ _ hwritten (by decide)⟩

/-- An unnamed focus that nothing was written to leaves, and without an activation the lease is held
on another field. -/
theorem unwritten_focus_follows :
    let w := acquiredOn false
    let w' := (w.focus (.focusOut none)).focus (.focusIn browser true)
    Reachable w ∧ w.acquired = true ∧ w.state.lease.standing 1 = some .held ∧
      w.place = some "/ic/1" ∧
    Reachable w' ∧ w'.state.lease.standing 1 = some .held ∧ w'.activations = [] ∧
      w'.place = some "/ic/2" := by
  have h := acquiredOn_reachable false
  have hout : Reachable ((acquiredOn false).focus (.focusOut none)) :=
    h.tail (.focus _ _ (by simp [World.Obeys]))
  exact ⟨h, rfl, by decide, by decide, hout.tail (.focus _ _ (.inl rfl)), by decide, by decide,
    by decide⟩

end Ibus

end Desktop

end Myna
