import Myna.Desktop.LeaseRuns

/-!
# Myna — activations, and blips that run out

The invariant of a lease's run survives whatever is no focus call: the user's activations, the tasks
of the blips, the writes, and a lease that is minted, acquired, retired or taken.

* **`wake_cases`**, **`wake_inv`** — the task of a blip;
* **`activated_inv`**, **`write_inv`** — activations and writes;
* **`step_inv`**, **`reachable_inv`** — the invariant of a run.
-/

namespace Myna

namespace Desktop

namespace Ibus

namespace World

/-! ## Steps that end the lease, or leave it -/

section

variable {w : World}

/-- A step that ends the lease, or leaves it as it is. -/
theorem settle_inv (h : w.Inv) {s : EngineState} (hnow : s.now = w.state.now)
    (hnext : s.nextLease = w.state.nextLease) (hblip : s.nextBlip = w.state.nextBlip)
    (hgraces : s.graces = w.state.graces) (hid : s.lease.id = w.state.lease.id)
    (hwrote : s.lease.wrote = w.state.lease.wrote)
    (hat : s.lease.activatedAt = w.state.lease.activatedAt)
    (hbinding : s.lease.binding = .lost ∨ s.lease.binding = w.state.lease.binding) :
    ({ w with state := s } : World).Inv := by
  constructor
  · show s.lease.id < s.nextLease
    rw [hid, hnext]
    exact h.id
  · unfold Agrees
    rcases hbinding with hb | hb
    · rw [hb]
      trivial
    · have hagrees := h.agrees
      unfold Agrees Clock at hagrees
      unfold Clock
      dsimp only
      rw [hb, hgraces, hwrote, hat]
      exact hagrees
  · show ∀ g ∈ s.graces, s.now ≤ g.wake
    rw [hgraces, hnow]
    exact h.awake
  · show ∀ g ∈ s.graces, g.blip < s.nextBlip
    rw [hgraces, hblip]
    exact h.spawned
  · show (s.graces.map Grace.blip).Nodup
    rw [hgraces]
    exact h.graces
  · show ∀ e ∈ w.blips, e.1 < s.nextBlip
    rw [hblip]
    exact h.began
  · exact h.once
  · intro b hb
    show (b, s.lease.id) ∈ w.blips
    rw [hid]
    apply h.owned
    have hb : s.lease.away = some b := hb
    unfold Lease.away at hb ⊢
    rcases hbinding with hb' | hb'
    · rw [hb'] at hb
      cases hb
    · rw [hb'] at hb
      exact hb
  · intro t ht
    exact h.activatedAt t (hat ▸ ht)
  · show ∀ t ∈ w.activations, t ≤ s.now
    rw [hnow]
    exact h.past
  · show w.left ≤ s.now
    rw [hnow]
    exact h.left
  · show w.returned ≤ s.now
    rw [hnow]
    exact h.returned
  · show ∀ e ∈ w.writes, e.1 ≤ s.lease.id
    rw [hid]
    exact h.writes
  · intro p hp
    obtain ⟨hacquired, hwritten, hplace⟩ := h.wrote p (hid ▸ hp)
    refine ⟨hacquired, hwrote.trans hwritten, ?_⟩
    unfold WroteTo at hplace ⊢
    rcases hbinding with hb | hb
    · rw [show ({ w with state := s } : World).state.lease.binding = .lost from hb]
      trivial
    · rw [show ({ w with state := s } : World).state.lease.binding = _ from hb]
      exact hplace
  · exact h.same

theorem retire_inv (h : w.Inv) (id : ℕ) :
    ({ w with state := (w.state.retire id).2 } : World).Inv := by
  unfold EngineState.retire
  split
  · exact h
  · exact settle_inv h rfl rfl rfl rfl rfl rfl rfl (.inl rfl)

theorem taken_inv (h : w.Inv) (id : ℕ) : ({ w with state := w.state.taken id } : World).Inv := by
  unfold EngineState.taken
  split
  · exact settle_inv h rfl rfl rfl rfl rfl rfl rfl (.inl rfl)
  · exact settle_inv h rfl rfl rfl rfl rfl rfl rfl (.inr rfl)

theorem surrounding_inv (h : w.Inv) (c : Option Char) :
    ({ w with state := w.state.surrounding c } : World).Inv := by
  unfold EngineState.surrounding
  split
  · exact settle_inv h rfl rfl rfl rfl rfl rfl rfl (.inr rfl)
  · exact settle_inv h rfl rfl rfl rfl rfl rfl rfl (.inr rfl)
  · exact h

theorem tick_inv (h : w.Inv) (elapsed : ℕ)
    (hdue : ∀ g ∈ w.state.graces, w.state.now + elapsed ≤ g.wake) :
    ({ w with state := { w.state with now := w.state.now + elapsed } } : World).Inv where
  id := h.id
  agrees := h.agrees
  awake := hdue
  spawned := h.spawned
  graces := h.graces
  began := h.began
  once := h.once
  owned := h.owned
  activatedAt := h.activatedAt
  past t ht := Nat.le_add_right_of_le (h.past t ht)
  left := Nat.le_add_right_of_le h.left
  returned := Nat.le_add_right_of_le h.returned
  writes := h.writes
  wrote := h.wrote
  same := h.same

theorem mint_inv (h : w.Inv) :
    ({ w with state := w.state.mint.2, acquired := false, latest := none, activations := [] } :
      World).Inv where
  id := Nat.lt_succ_self _
  agrees := rfl
  awake := h.awake
  spawned := h.spawned
  graces := h.graces
  began := h.began
  once := h.once
  owned b hb := by cases hb
  activatedAt t ht := by cases ht
  past t ht := by cases ht
  left := h.left
  returned := h.returned
  writes e he := Nat.le_of_lt (Nat.lt_of_le_of_lt (h.writes e he) h.id)
  wrote p hp := by
    -- nothing was written under an id that is new
    have hle : w.state.nextLease ≤ w.state.lease.id := h.writes _ hp
    have := h.id
    omega
  same := h.same

theorem unfocus_inv (h : w.Inv) (id : ℕ) :
    ({ w with state := w.state.unfocus id } : World).Inv := by
  unfold EngineState.unfocus
  split
  case isFalse => exact h
  case isTrue hp =>
    have hagrees := h.agrees
    unfold Agrees at hagrees
    rw [hp.2] at hagrees
    refine { h with agrees := ?_, owned := ?_, wrote := ?_ }
    · intro hacquired
      rw [hagrees] at hacquired
      cases hacquired
    · intro b hb
      cases hb
    · intro p hw
      obtain ⟨hacquired, -⟩ := h.wrote p hw
      rw [hagrees] at hacquired
      cases hacquired

theorem acquire_inv (h : w.Inv) (hnot : w.state.lease.binding ≠ .pending) :
    ({ w with acquired := true, moved := false } : World).Inv := by
  refine { h with agrees := ?_, wrote := ?_ }
  · have hagrees := h.agrees
    unfold Agrees at hagrees ⊢
    dsimp only
    cases hb : w.state.lease.binding with
    | pending => exact absurd hb hnot
    | unfocused => exact fun _ => rfl
    | unnamed | left | context | away | lost =>
      rw [hb] at hagrees
      exact hagrees
  · intro p hp
    obtain ⟨-, hwritten, hplace⟩ := h.wrote p hp
    exact ⟨rfl, hwritten, hplace⟩

theorem standing_held {lease : Lease} {id : ℕ} (h : lease.standing id = some .held) :
    lease.heldBy id = true ∧
      (lease.binding = .pending ∨ lease.binding = .unnamed ∨ lease.binding = .unfocused ∨
        ∃ path, lease.binding = .context path) := by
  unfold Lease.standing at h
  split at h
  · cases h
  case isFalse hheld =>
    refine ⟨by simpa using hheld, ?_⟩
    split at h
    · cases h
    · cases h
    · cases h
    case h_4 hshort hleft haway =>
      cases hb : lease.binding with
      | pending => exact .inl rfl
      | unnamed => exact .inr (.inl rfl)
      | unfocused => exact .inr (.inr (.inl rfl))
      | context path => exact .inr (.inr (.inr ⟨path, rfl⟩))
      | left b => exact absurd hb (hleft b)
      | away path b act back => exact absurd hb (haway path b act back)
      | lost => simp [Lease.heldBy, hb] at hheld

/-- A write that stands held goes to where the lease wrote before. -/
theorem place_of_held (h : w.Inv) (hacquired : w.acquired = true)
    (hheld : w.state.lease.standing w.state.lease.id = some .held) :
    w.WroteTo w.place ∧ ∀ p, w.WroteTo p → p = w.place := by
  have hagrees := h.agrees
  unfold Agrees at hagrees
  unfold WroteTo
  obtain ⟨-, hb | hb | hb | ⟨path, hb⟩⟩ := standing_held hheld
  · rw [hb] at hagrees
    rw [hagrees] at hacquired
    cases hacquired
  · rw [hb]
    exact ⟨rfl, fun p hp => hp⟩
  · rw [hb]
    exact ⟨rfl, fun p hp => hp⟩
  · rw [hb] at hagrees ⊢
    obtain ⟨ctx, -, rfl, hcurrent, hout⟩ := hagrees
    have hplace : w.place = some ctx.path := by
      rw [place, hout, hcurrent]
      rfl
    rw [hplace]
    exact ⟨rfl, fun p hp => hp⟩

theorem write_inv (h : w.Inv) (hacquired : w.acquired = true)
    (hheld : w.state.lease.standing w.state.lease.id = some .held) :
    ({ w with state := w.state.wrote w.state.lease.id,
              writes := w.writes ++ [(w.state.lease.id, w.place)] } : World).Inv := by
  obtain ⟨hplace, honly⟩ := place_of_held h hacquired hheld
  obtain ⟨hby, hb⟩ := standing_held hheld
  unfold EngineState.wrote
  rw [if_pos hby]
  refine { h with agrees := ?_, writes := ?_, wrote := ?_, same := ?_ }
  · have hagrees := h.agrees
    unfold Agrees at hagrees ⊢
    dsimp only
    rcases hb with hb | hb | hb | ⟨path, hb⟩
    all_goals
      rw [hb] at hagrees ⊢
      exact hagrees
  · intro e he
    rcases List.mem_append.mp he with he | he
    · exact h.writes e he
    · obtain rfl := List.mem_singleton.mp he
      exact Nat.le_refl _
  · intro p hp
    refine ⟨hacquired, rfl, ?_⟩
    rcases List.mem_append.mp hp with hp | hp
    · exact (h.wrote p hp).2.2
    · obtain ⟨-, rfl⟩ := Prod.mk.inj (List.mem_singleton.mp hp)
      exact hplace
  · have hnew : ∀ p, (w.state.lease.id, p) ∈ w.writes → p = w.place := fun p hp =>
      honly p (h.wrote p hp).2.2
    intro id p q hp hq
    rcases List.mem_append.mp hp with hp | hp <;> rcases List.mem_append.mp hq with hq | hq
    · exact h.same id p q hp hq
    · obtain ⟨rfl, rfl⟩ := Prod.mk.inj (List.mem_singleton.mp hq)
      exact hnew p hp
    · obtain ⟨rfl, rfl⟩ := Prod.mk.inj (List.mem_singleton.mp hp)
      exact (hnew q hq).symm
    · obtain ⟨-, rfl⟩ := Prod.mk.inj (List.mem_singleton.mp hp)
      obtain ⟨-, rfl⟩ := Prod.mk.inj (List.mem_singleton.mp hq)
      rfl

/-! ## Blips that run out -/

/-- What the task of a blip does when it wakes. -/
theorem wake_cases (s : EngineState) (g : Grace) :
    (s.wake g).now = s.now ∧ (s.wake g).nextLease = s.nextLease ∧
      (s.wake g).nextBlip = s.nextBlip ∧ (s.wake g).lease.id = s.lease.id ∧
      (s.wake g).lease.wrote = s.lease.wrote ∧
      (s.wake g).lease.activatedAt = s.lease.activatedAt ∧
      ((s.lease.away = some g.blip ∧ (s.wake g).lease.binding = .lost ∧
          (s.wake g).graces = s.graces.erase g) ∨
        (s.lease.away ≠ some g.blip ∧ (s.wake g).lease = s.lease ∧
          (s.wake g).graces = s.graces.erase g) ∨
        (s.lease.away = some g.blip ∧ (g.windowOver = true ∨ s.lease.binding.unexplained = false) ∧
          (s.wake g).lease = s.lease ∧
          ∃ deadline, deadline = max (s.lease.activatedAt.getD g.since) g.since + FOCUS_BLIP_GRACE ∧
            s.now < deadline ∧ (s.wake g).graces
              = s.graces.erase g ++ [{ g with wake := deadline, windowOver := true }])) := by
  unfold EngineState.wake
  by_cases haway : s.lease.away = some g.blip
  · by_cases hshort : g.windowOver = true ∨ s.lease.binding.unexplained = false
    · -- the task looks at the grace
      have hfirst : (if g.windowOver then ({ s with graces := s.graces.erase g } : EngineState)
          else EngineState.expire { s with graces := s.graces.erase g } g.blip false)
          = { s with graces := s.graces.erase g } := by
        split
        case isTrue => rfl
        case isFalse hover =>
          unfold EngineState.expire
          rw [if_neg]
          rcases hshort with hover' | hnot
          · exact absurd hover' hover
          · simp [hnot]
      dsimp only
      rw [hfirst]
      have hdeadline : EngineState.blipDeadline { s with graces := s.graces.erase g } g.blip g.since
          = some (max (s.lease.activatedAt.getD g.since) g.since + FOCUS_BLIP_GRACE) :=
        if_pos haway
      rw [hdeadline]
      dsimp only
      split
      case isTrue hdue =>
        rw [EngineState.expire, if_pos ⟨haway, rfl⟩]
        exact ⟨rfl, rfl, rfl, rfl, rfl, rfl, .inl ⟨haway, rfl, rfl⟩⟩
      case isFalse hdue =>
        exact ⟨rfl, rfl, rfl, rfl, rfl, rfl, .inr (.inr ⟨haway, hshort, rfl, _, rfl,
          by omega, rfl⟩)⟩
    · -- the window is over, and no activation explains the blip
      rw [not_or, Bool.not_eq_true, Bool.not_eq_false] at hshort
      dsimp only
      rw [if_neg (by simp [hshort.1]), EngineState.expire, if_pos ⟨haway, by simp [hshort.2]⟩]
      have hnone : EngineState.blipDeadline
          { s with graces := s.graces.erase g,
                   lease := { s.lease with fieldless := s.lease.binding.isLeft, binding := .lost } }
          g.blip g.since = none := if_neg (by simp [Lease.away])
      rw [hnone]
      exact ⟨rfl, rfl, rfl, rfl, rfl, rfl, .inl ⟨haway, rfl, rfl⟩⟩
  · have hfirst : (if g.windowOver then ({ s with graces := s.graces.erase g } : EngineState)
        else EngineState.expire { s with graces := s.graces.erase g } g.blip false)
        = { s with graces := s.graces.erase g } := by
      split
      · rfl
      · exact if_neg (by simp [haway])
    dsimp only
    rw [hfirst]
    have hnone : EngineState.blipDeadline { s with graces := s.graces.erase g } g.blip g.since
        = none := if_neg haway
    rw [hnone]
    exact ⟨rfl, rfl, rfl, rfl, rfl, rfl, .inr (.inl ⟨haway, rfl, rfl⟩)⟩

/-- A blip has one task. -/
theorem grace_unique (h : w.Inv) {g g' : Grace} (hg : g ∈ w.state.graces)
    (hg' : g' ∈ w.state.graces) (hblip : g.blip = g'.blip) : g = g' :=
  List.inj_on_of_nodup_map h.graces hg hg' hblip

theorem nodup_graces (h : w.Inv) : w.state.graces.Nodup := h.graces.of_map _

theorem clock_of_binding (h : w.Inv) {b : ℕ} (haway : w.state.lease.away = some b) :
    ∃ act, w.Clock b act ∧
      (w.state.lease.binding.unexplained = false → act = true) := by
  have hagrees := h.agrees
  unfold Agrees at hagrees
  unfold Lease.away at haway
  split at haway
  case h_1 path b' act back hb =>
    obtain rfl := Option.some.inj haway
    rw [hb] at hagrees ⊢
    refine ⟨act, hagrees.1, fun hnot => ?_⟩
    simpa [Binding.unexplained] using hnot
  case h_2 b' hb =>
    obtain rfl := Option.some.inj haway
    rw [hb] at hagrees
    exact ⟨true, hagrees.2, fun _ => rfl⟩
  case h_3 => cases haway

theorem wake_inv (h : w.Inv) {g : Grace} (hg : g ∈ w.state.graces) :
    ({ w with state := w.state.wake g } : World).Inv := by
  obtain ⟨hnow, hnext, hblip, hid, hwrote, hat, hcases⟩ := wake_cases w.state g
  have hsub : ∀ g' ∈ (w.state.wake g).graces, g' ∈ w.state.graces ∨
      g'.blip = g.blip ∧ w.state.now ≤ g'.wake := by
    intro g' hg'
    rcases hcases with ⟨-, -, hgr⟩ | ⟨-, -, hgr⟩ | ⟨-, -, -, d, -, hlt, hgr⟩
    · exact .inl (List.mem_of_mem_erase (hgr ▸ hg'))
    · exact .inl (List.mem_of_mem_erase (hgr ▸ hg'))
    · rw [hgr] at hg'
      rcases List.mem_append.mp hg' with hg' | hg'
      · exact .inl (List.mem_of_mem_erase hg')
      · obtain rfl := List.mem_singleton.mp hg'
        exact .inr ⟨rfl, Nat.le_of_lt hlt⟩
  have hnodup : ((w.state.graces.erase g).map Grace.blip).Nodup :=
    h.graces.sublist ((List.erase_sublist).map _)
  constructor
  · show (w.state.wake g).lease.id < (w.state.wake g).nextLease
    rw [hid, hnext]
    exact h.id
  · have hagrees := h.agrees
    unfold Agrees at hagrees ⊢
    dsimp only
    rcases hcases with ⟨-, hlost, -⟩ | ⟨haway, hlease, hgr⟩ | ⟨haway, hshort, hlease,
      d, hd, hlt, hgr⟩
    · rw [hlost]
      trivial
    · -- another blip's task: the one of this blip still waits
      have hclock : ∀ b act, w.state.lease.away = some b → w.Clock b act →
          ({ w with state := w.state.wake g } : World).Clock b act := by
        rintro b act hb ⟨g', hg', hgb, hrest⟩
        refine ⟨g', ?_, hgb, ?_⟩
        · show g' ∈ (w.state.wake g).graces
          rw [hgr, List.mem_erase_of_ne]
          · exact hg'
          · rintro rfl
            rw [hgb] at haway
            exact haway hb
        · show g'.since = w.left ∧ _
          dsimp only
          rw [hlease]
          exact hrest
      rw [hlease]
      cases hb : w.state.lease.binding with
      | left b =>
        rw [hb] at hagrees
        exact ⟨hagrees.1, hclock b true (by simp [Lease.away, hb]) hagrees.2⟩
      | away path b act back =>
        rw [hb] at hagrees
        exact ⟨hclock b act (by simp [Lease.away, hb]) hagrees.1, hagrees.2⟩
      | pending | unnamed | context | unfocused | lost =>
        rw [hb] at hagrees
        exact hagrees
    · -- its own task sleeps on, until the grace is over
      obtain ⟨act, ⟨g', hg', hgb, hsince, htime⟩, hact⟩ := clock_of_binding h haway
      obtain rfl := grace_unique h hg' hg hgb
      have hact : act = true := by
        rcases hshort with hover | hnot
        · rw [if_pos hover] at htime
          exact htime.1
        · exact hact hnot
      have hclock : ({ w with state := w.state.wake g' } : World).Clock g'.blip true := by
        refine ⟨{ g' with wake := d, windowOver := true }, ?_, rfl, hsince, ?_⟩
        · show _ ∈ (w.state.wake g').graces
          rw [hgr]
          simp
        · refine ⟨rfl, ?_⟩
          show d ≤ max w.left ((w.state.wake g').lease.activatedAt.getD w.left) + FOCUS_BLIP_GRACE
          rw [hlease, hd, hsince, max_comm]
      rw [hlease]
      cases hb : w.state.lease.binding with
      | left b =>
        rw [hb] at hagrees
        obtain rfl : b = g'.blip := by simpa [Lease.away, hb] using haway
        exact ⟨hagrees.1, hclock⟩
      | away path b act' back =>
        rw [hb] at hagrees
        obtain rfl : b = g'.blip := by simpa [Lease.away, hb] using haway
        have hact' : act' = true := by
          rcases hshort with hover | hnot
          · obtain ⟨g'', hg'', hgb'', -, htime'⟩ := hagrees.1
            obtain rfl := grace_unique h hg'' hg hgb''
            rw [if_pos hover] at htime'
            exact htime'.1
          · simpa [Binding.unexplained, hb] using hnot
        rw [hact'] at hagrees ⊢
        exact ⟨hclock, hagrees.2⟩
      | pending | unnamed | context | unfocused | lost =>
        simp [Lease.away, hb] at haway
  · intro g' hg'
    show (w.state.wake g).now ≤ g'.wake
    rw [hnow]
    rcases hsub g' hg' with hold | ⟨-, hle⟩
    · exact h.awake g' hold
    · exact hle
  · intro g' hg'
    show g'.blip < (w.state.wake g).nextBlip
    rw [hblip]
    rcases hsub g' hg' with hold | ⟨hb, -⟩
    · exact h.spawned g' hold
    · rw [hb]
      exact h.spawned g hg
  · show ((w.state.wake g).graces.map Grace.blip).Nodup
    rcases hcases with ⟨-, -, hgr⟩ | ⟨-, -, hgr⟩ | ⟨-, -, -, d, -, -, hgr⟩
    · rw [hgr]
      exact hnodup
    · rw [hgr]
      exact hnodup
    · rw [hgr, List.map_append]
      apply hnodup.append (List.nodup_singleton _)
      intro b hb hb'
      obtain ⟨g', hg', rfl⟩ := List.mem_map.mp hb
      have heq : g'.blip = g.blip := List.mem_singleton.mp hb'
      obtain rfl := grace_unique h (List.mem_of_mem_erase hg') hg heq
      exact (nodup_graces h).not_mem_erase hg'
  · show ∀ e ∈ w.blips, e.1 < (w.state.wake g).nextBlip
    rw [hblip]
    exact h.began
  · exact h.once
  · intro b hb
    show (b, (w.state.wake g).lease.id) ∈ w.blips
    rw [hid]
    apply h.owned
    have hb : (w.state.wake g).lease.away = some b := hb
    rcases hcases with ⟨-, hlost, -⟩ | ⟨-, hlease, -⟩ | ⟨-, -, hlease, -⟩
    · simp [Lease.away, hlost] at hb
    · rw [← hlease]
      exact hb
    · rw [← hlease]
      exact hb
  · intro t ht
    exact h.activatedAt t (hat ▸ ht)
  · show ∀ t ∈ w.activations, t ≤ (w.state.wake g).now
    rw [hnow]
    exact h.past
  · show w.left ≤ (w.state.wake g).now
    rw [hnow]
    exact h.left
  · show w.returned ≤ (w.state.wake g).now
    rw [hnow]
    exact h.returned
  · show ∀ e ∈ w.writes, e.1 ≤ (w.state.wake g).lease.id
    rw [hid]
    exact h.writes
  · intro p hp
    obtain ⟨hacquired, hwritten, hplace⟩ := h.wrote p (hid ▸ hp)
    refine ⟨hacquired, hwrote.trans hwritten, ?_⟩
    unfold WroteTo at hplace ⊢
    dsimp only
    rcases hcases with ⟨-, hlost, -⟩ | ⟨-, hlease, -⟩ | ⟨-, -, hlease, -⟩
    · rw [hlost]
      trivial
    · rw [hlease]
      exact hplace
    · rw [hlease]
      exact hplace
  · exact h.same

/-! ## Activations -/

/-- A blip that is not explained is still in its window. -/
theorem in_window (h : w.Inv) {b : ℕ} (hclock : w.Clock b false) :
    w.state.now ≤ w.left + ACTIVATION_WINDOW := by
  obtain ⟨g, hg, -, -, htime⟩ := hclock
  have hawake := h.awake g hg
  split at htime
  · cases htime.1
  · omega

/-- A blip that is explained is in the window or in the grace. -/
theorem in_grace (h : w.Inv) {b : ℕ} {act : Bool} (hclock : w.Clock b act) :
    w.state.now ≤ max w.left (w.state.lease.activatedAt.getD w.left) + FOCUS_BLIP_GRACE := by
  obtain ⟨g, hg, -, -, htime⟩ := hclock
  have hawake := h.awake g hg
  have hle : w.left ≤ max w.left (w.state.lease.activatedAt.getD w.left) := le_max_left _ _
  have hwindow : ACTIVATION_WINDOW ≤ FOCUS_BLIP_GRACE := by decide
  split at htime
  · omega
  · omega

/-- An activation that explains a blip, or lengthens its grace. -/
theorem activated_clock (h : w.Inv) {b : ℕ} {act : Bool} (hclock : w.Clock b act) {w' : World}
    (hgraces : w'.state.graces = w.state.graces) (hleft : w'.left = w.left)
    (hat : w'.state.lease.activatedAt = some w.state.now) : w'.Clock b true := by
  obtain ⟨g, hg, hb, hsince, htime⟩ := hclock
  refine ⟨g, hgraces ▸ hg, hb, hsince.trans hleft.symm, ?_⟩
  rw [hleft]
  split at htime
  case isTrue hover =>
    rw [if_pos hover]
    refine ⟨rfl, htime.2.trans ?_⟩
    rw [hat, Option.getD_some]
    have hle : w.state.lease.activatedAt.getD w.left ≤ w.state.now := by
      cases hat' : w.state.lease.activatedAt with
      | none => exact h.left
      | some t => exact h.past t (h.activatedAt t hat')
    have := h.left
    omega
  case isFalse hover =>
    rw [if_neg hover]
    exact htime

theorem activated_lease (lease : Lease) (now : ℕ) :
    (lease.activated now).id = lease.id ∧ (lease.activated now).wrote = lease.wrote ∧
      (lease.activated now).activatedAt = some now := by
  unfold Lease.activated
  dsimp only
  split
  · split <;> exact ⟨rfl, rfl, rfl⟩
  · exact ⟨rfl, rfl, rfl⟩

theorem activated_inv (h : w.Inv) (id : ℕ) : (w.activated id).Inv := by
  unfold activated EngineState.activated
  split
  case isFalse => exact h
  case isTrue hheld =>
    obtain ⟨hid, hwrote, hat⟩ := activated_lease w.state.lease w.state.now
    have hagrees := h.agrees
    unfold Agrees at hagrees
    constructor
    · show (w.state.lease.activated w.state.now).id < w.state.nextLease
      rw [hid]
      exact h.id
    · unfold Agrees
      cases hb : w.state.lease.binding with
      | away path b act back =>
        rw [hb] at hagrees
        obtain ⟨hclock, hexplained, hback⟩ := hagrees
        cases back with
        | true =>
          simp only [Lease.activated, hb, if_true]
          exact (hback rfl).2.1
        | false =>
          simp only [Lease.activated, hb, Bool.false_eq_true, if_false]
          refine ⟨activated_clock h hclock rfl rfl rfl, fun _ => ?_, by simp⟩
          cases act with
          | true =>
            obtain ⟨a, ha, hrest⟩ := hexplained rfl
            exact ⟨a, List.mem_append_left _ ha, hrest⟩
          | false =>
            refine ⟨w.state.now, by simp, in_window h hclock, ?_⟩
            exact Nat.le_add_right_of_le h.left
      | left b =>
        rw [hb] at hagrees
        simp only [Lease.activated, hb]
        exact ⟨hagrees.1, activated_clock h hagrees.2 rfl rfl rfl⟩
      | pending | unnamed | context | unfocused =>
        rw [hb] at hagrees
        simp only [Lease.activated, hb]
        exact hagrees
      | lost => simp only [Lease.activated, hb]
    · exact h.awake
    · exact h.spawned
    · exact h.graces
    · exact h.began
    · exact h.once
    · intro b hb
      show (b, (w.state.lease.activated w.state.now).id) ∈ w.blips
      rw [hid]
      apply h.owned
      have hb : (w.state.lease.activated w.state.now).away = some b := hb
      unfold Lease.activated Lease.away at hb
      dsimp only at hb
      unfold Lease.away
      cases hbind : w.state.lease.binding with
      | away path b' act back => cases back <;> simp_all
      | left b' => simp_all
      | pending | unnamed | context | unfocused | lost => simp_all
    · intro t ht
      have ht : (w.state.lease.activated w.state.now).activatedAt = some t := ht
      rw [hat] at ht
      obtain rfl := Option.some.inj ht
      simp
    · intro t ht
      rcases List.mem_append.mp ht with ht | ht
      · exact h.past t ht
      · obtain rfl := List.mem_singleton.mp ht
        exact Nat.le_refl _
    · exact h.left
    · exact h.returned
    · show ∀ e ∈ w.writes, e.1 ≤ (w.state.lease.activated w.state.now).id
      rw [hid]
      exact h.writes
    · intro p hp
      obtain ⟨hacquired, hwritten, hplace⟩ := h.wrote p (hid ▸ hp)
      refine ⟨hacquired, hwrote.trans hwritten, ?_⟩
      unfold WroteTo at hplace ⊢
      cases hb : w.state.lease.binding with
      | away path b act back =>
        rw [hb] at hplace
        cases back <;> simpa [Lease.activated, hb] using hplace
      | unnamed | context | unfocused =>
        rw [hb] at hplace
        simp only [Lease.activated, hb]
        exact hplace
      | pending | left =>
        rw [hb] at hplace
        exact hplace.elim
      | lost => simp only [Lease.activated, hb]
    · exact h.same

theorem activatedCurrent_eq (s : EngineState) : s.activatedCurrent = s.activated s.lease.id := by
  unfold EngineState.activatedCurrent EngineState.activated Lease.heldBy
  simp

end

end World

/-! ## Runs -/

theorem step_inv {w w' : World} (hstep : Step w w') (h : w.Inv) : w'.Inv := by
  cases hstep with
  | tick elapsed hdue => exact World.tick_inv h elapsed hdue
  | focus call hobeys => exact World.focus_inv h hobeys
  | activated id => exact World.activated_inv h id
  | activatedCurrent =>
    rw [World.activatedCurrent_eq]
    exact World.activated_inv h w.state.lease.id
  | wake g hg => exact World.wake_inv h hg
  | mint => exact World.mint_inv h
  | unfocus id => exact World.unfocus_inv h id
  | acquire hnot => exact World.acquire_inv h hnot
  | write id hid hacquired hheld =>
    subst hid
    exact World.write_inv h hacquired hheld
  | surrounding c => exact World.surrounding_inv h c
  | retire id => exact World.retire_inv h id
  | taken id => exact World.taken_inv h id

theorem init_inv : World.Inv {} where
  id := Nat.zero_lt_one
  agrees := trivial
  awake := by simp
  spawned := by simp
  graces := List.nodup_nil
  began := by simp
  once := List.nodup_nil
  owned b hb := by cases hb
  activatedAt t ht := by cases ht
  past := by simp
  left := Nat.le_refl 0
  returned := Nat.le_refl 0
  writes := by simp
  wrote := by simp
  same := by simp

theorem reachable_inv {w : World} (h : Reachable w) : w.Inv :=
  StepSystem.reachable_induction h init_inv fun _ _ hinv hstep => step_inv hstep hinv

end Ibus

end Desktop

end Myna
