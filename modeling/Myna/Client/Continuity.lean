import Mathlib.Algebra.Order.Field.Rat
import Mathlib.Data.List.MinMax
import Mathlib.Tactic.Linarith
import Mathlib.Tactic.NormNum
import Mathlib.Tactic.Ring
import Myna.Lib.Reflected

/-!
# Myna — the account of lost audio (`Continuity` of `myna_audio::native`)

The stream clock advances for every graph cycle, also for one whose buffer the data thread missed:
clock minus delivered frames is what was lost. Delivery runs in and out of phase with the clock, so
the account may run a cycle ahead of it, and a deficit is a loss only once enough later audio has
failed to repay it.

* **`Continuity.delivered`** — one delivery;
* **`Account`** — what the calls of one account say, with no history: the free sum, the smallest
  cycle, the audio delivered;
* **`Continuity.Tracks.delivered`** — one call, and the account after it;
* **`delivered_exact`** — a loss is reported exactly when the account has one.
-/

namespace Myna

namespace Native

/-- `LOSS_TOLERANCE`, in seconds. -/
def LOSS_TOLERANCE : ℚ := 20 / 1000

/-- `LOSS_CONFIRM`, in seconds. -/
def LOSS_CONFIRM : ℚ := 200 / 1000

def CYCLE_CHANGE : ℚ := 5 / 4

structure Continuity where
  rate : ℚ
  domain : Option (ℕ × ℕ)
  lastTicks : Option ℕ
  owed : ℚ
  cycle : ℚ
  unrepaid : Option ℚ
  delivery : ℚ
  disagreed : ℕ
deriving DecidableEq

/-- One call of `delivered`: the stream clock, its rate as numerator and denominator, and the frames
that arrived. -/
structure Call where
  ticks : ℕ
  graphRate : ℕ × ℕ
  frames : ℕ

namespace Continuity

def new (rate : ℕ) : Continuity where
  rate := rate
  domain := none
  lastTicks := none
  owed := 0
  cycle := 0
  unrepaid := none
  delivery := 0
  disagreed := 0

/-- The stream changed state; nothing is owed across a pause. -/
def restart (c : Continuity) : Continuity :=
  { c with lastTicks := none, owed := 0, cycle := 0, unrepaid := none }

/-- Fold one delivery into the cycle measurement, reporting a graph cycle that changed. -/
def measure (c : Continuity) (frames : ℕ) : Bool × Continuity :=
  if frames = 0 then (false, c)
  else if c.delivery = 0 then (false, { c with delivery := frames })
  else if frames ≤ c.delivery * CYCLE_CHANGE ∧ c.delivery ≤ frames * CYCLE_CHANGE then
    (false, { c with disagreed := 0 })
  else if c.disagreed + 1 < 2 then (false, { c with disagreed := c.disagreed + 1 })
  else (true, { c with disagreed := 0, delivery := frames })

/-- A rateless report says nothing about the clock domain. -/
def domainOf (graphRate : ℕ × ℕ) : Option (ℕ × ℕ) :=
  if graphRate.2 ≠ 0 then some graphRate else none

/-- The call restarts the account: the graph's cycle changed, or the clock's domain did. -/
def restarts (c : Continuity) (call : Call) : Bool :=
  (c.measure call.frames).1 ||
    ((domainOf call.graphRate).isSome && decide (domainOf call.graphRate ≠ c.domain))

def tolerance (c : Continuity) : ℚ := LOSS_TOLERANCE * c.rate

/-- Frames the clock advance stands for; a clock that did not move produced nothing. -/
def expected (rate : ℚ) (last : ℕ) (call : Call) : ℚ :=
  if last < call.ticks ∧ call.graphRate.2 ≠ 0 then
    ((call.ticks - last : ℕ) : ℚ) * call.graphRate.1 * rate / call.graphRate.2
  else 0

/-- `delivered`: the loss, in seconds, once a deficit past `LOSS_TOLERANCE` has outlived
`LOSS_CONFIRM` of later audio. -/
def delivered (c : Continuity) (call : Call) : Option ℚ × Continuity :=
  let measured := (c.measure call.frames).2
  let c := if c.restarts call then
      { measured.restart with domain := domainOf call.graphRate }
    else measured
  match c.lastTicks with
  | none => (none, { c with lastTicks := some call.ticks })
  | some last =>
    let expected := expected c.rate last call
    let cycle := if 0 < expected ∧ (c.cycle = 0 ∨ expected < c.cycle) then expected else c.cycle
    let owed := max (c.owed + expected - call.frames) (-max cycle c.tolerance)
    let c := { c with lastTicks := some call.ticks, cycle, owed }
    if owed ≤ c.tolerance then (none, { c with unrepaid := none })
    else match c.unrepaid with
      -- the delivery that opened the deficit is no evidence against it
      | none => (none, { c with unrepaid := some 0 })
      | some arrived =>
        let arrived := arrived + call.frames
        (if LOSS_CONFIRM * c.rate ≤ arrived then some (owed / c.rate) else none,
          { c with unrepaid := some arrived })

/-- `outstanding`: the deficit standing right now, past what one cycle and the tolerance explain. -/
def outstanding (c : Continuity) : Option ℚ :=
  if max c.cycle c.tolerance + c.tolerance < c.owed then some (c.owed / c.rate) else none

end Continuity

/-! ## The account without its history -/

/-- The calls of one account: the stream's rate, the clock the account opened at, and what
followed. -/
structure Account where
  rate : ℕ
  opened : ℕ
  call : ℕ → Call

namespace Account

variable (A : Account)

/-- `T`, in frames. -/
def tolerance : ℚ := LOSS_TOLERANCE * A.rate

/-- The clock before a call. -/
def before : ℕ → ℕ
  | 0 => A.opened
  | m + 1 => (A.call m).ticks

/-- The frames the clock advance of a call stands for. -/
def advance (m : ℕ) : ℚ := Continuity.expected A.rate (A.before m) (A.call m)

/-- What a call adds to the account. -/
def step (m : ℕ) : ℚ := A.advance m - (A.call m).frames

/-- `D(m)`: the clock advances less the frames delivered, over the first `m` calls. -/
def free (m : ℕ) : ℚ := Reflected.free A.step m

/-- The smallest positive advance of the first `m` calls; zero where there is none. -/
def smallest (m : ℕ) : ℚ := ((((List.range m).map A.advance).filter (0 < ·)).min?).getD 0

/-- `c_m`: the larger of the tolerance and the smallest positive advance up to call `m`. -/
def bound (m : ℕ) : ℚ := max (A.smallest m) A.tolerance

/-- `R(m)`: the largest of `D(m)` and `D(m) - D(j) - c_j`, over the calls `j` up to `m`. -/
def owed (m : ℕ) : ℚ := Reflected.largest A.step (fun j => A.bound (j + 1)) m

/-- The frames delivered in the first `m` calls. -/
def delivered (m : ℕ) : ℚ := ∑ i ∈ Finset.range m, ((A.call i).frames : ℚ)

/-- At call `k` a deficit has stood since call `i`, and outlived enough later audio. -/
structure Outlived (i k : ℕ) : Prop where
  pos : 0 < i
  lt : i < k
  stands : ∀ m, i ≤ m → m ≤ k → A.tolerance < A.owed m
  later : LOSS_CONFIRM * A.rate ≤ A.delivered k - A.delivered i

/-- The state of the code after the first `m` calls. -/
def state (c : Continuity) : ℕ → Continuity
  | 0 => c
  | m + 1 => ((state c m).delivered (A.call m)).2

/-- What the code returns from call `m + 1`. -/
def returned (c : Continuity) (m : ℕ) : Option ℚ := ((A.state c m).delivered (A.call m)).1

/-- No one of the first `n` calls restarts the account. -/
def Keeps (c : Continuity) (n : ℕ) : Prop := ∀ m < n, (A.state c m).restarts (A.call m) = false

end Account

/-! ## One call -/

namespace Continuity

/-- The cycle measurement leaves the account alone. -/
theorem measure_keeps (c : Continuity) (frames : ℕ) :
    (c.measure frames).2.rate = c.rate ∧ (c.measure frames).2.lastTicks = c.lastTicks ∧
      (c.measure frames).2.owed = c.owed ∧ (c.measure frames).2.cycle = c.cycle ∧
      (c.measure frames).2.unrepaid = c.unrepaid := by
  unfold measure
  split_ifs <;> exact ⟨rfl, rfl, rfl, rfl, rfl⟩

/-- **A call within an account**: the cycle and the deficit after it, and what is returned. -/
theorem delivered_spec {c : Continuity} {call : Call} {last : ℕ} (hlast : c.lastTicks = some last)
    (hkeep : c.restarts call = false) {advance cycle owed : ℚ}
    (hadvance : advance = expected c.rate last call)
    (hcycle : cycle = if 0 < advance ∧ (c.cycle = 0 ∨ advance < c.cycle) then advance else c.cycle)
    (howed : owed = max (c.owed + advance - call.frames) (-max cycle c.tolerance)) :
    (c.delivered call).2.rate = c.rate ∧ (c.delivered call).2.lastTicks = some call.ticks ∧
    (c.delivered call).2.cycle = cycle ∧ (c.delivered call).2.owed = owed ∧
    (owed ≤ c.tolerance ∧ (c.delivered call).2.unrepaid = none ∧ (c.delivered call).1 = none ∨
      c.tolerance < owed ∧ c.unrepaid = none ∧ (c.delivered call).2.unrepaid = some 0 ∧
        (c.delivered call).1 = none ∨
      ∃ arrived, c.tolerance < owed ∧ c.unrepaid = some arrived ∧
        (c.delivered call).2.unrepaid = some (arrived + call.frames) ∧
        (c.delivered call).1 =
          if LOSS_CONFIRM * c.rate ≤ arrived + call.frames then some (owed / c.rate)
            else none) := by
  obtain ⟨hrate, hticks, howed', hcycle', hunrepaid⟩ := c.measure_keeps call.frames
  have htolerance : (c.measure call.frames).2.tolerance = c.tolerance := by
    unfold tolerance
    rw [hrate]
  unfold delivered
  simp only [hkeep, Bool.false_eq_true, if_false, hticks, hlast, hrate, howed', hcycle', hunrepaid,
    htolerance, ← hadvance, ← hcycle, ← howed]
  split
  · next hle => exact ⟨rfl, rfl, rfl, rfl, .inl ⟨hle, rfl, rfl⟩⟩
  · next hlt =>
    have hlt := not_le.mp hlt
    cases hu : c.unrepaid with
    | none => exact ⟨rfl, rfl, rfl, rfl, .inr (.inl ⟨hlt, rfl, rfl, rfl⟩)⟩
    | some arrived => exact ⟨rfl, rfl, rfl, rfl, .inr (.inr ⟨arrived, hlt, rfl, rfl, rfl⟩)⟩

end Continuity

/-! ## The calls of one account -/

namespace Account

variable {A : Account}

theorem tolerance_nonneg (A : Account) : 0 ≤ A.tolerance :=
  mul_nonneg (by unfold LOSS_TOLERANCE; norm_num) (Nat.cast_nonneg _)

theorem delivered_succ (A : Account) (m : ℕ) :
    A.delivered (m + 1) = A.delivered m + (A.call m).frames :=
  Finset.sum_range_succ _ _

theorem delivered_mono (A : Account) : Monotone A.delivered := by
  refine monotone_nat_of_le_succ fun m => ?_
  rw [delivered_succ]
  exact le_add_of_nonneg_right (Nat.cast_nonneg _)

/-- The smallest of a list with one more element. -/
theorem min?_concat (l : List ℚ) (a : ℚ) :
    (l ++ [a]).min? = some (l.min?.elim a fun b => min b a) := by
  cases l with
  | nil => rfl
  | cons b l =>
    rw [List.cons_append, List.min?_cons', List.min?_cons', List.foldl_append]
    rfl

/-- The code keeps the smallest positive advance, with zero for none. -/
theorem smallest_succ (A : Account) (m : ℕ) :
    A.smallest (m + 1) =
      if 0 < A.advance m ∧ (A.smallest m = 0 ∨ A.advance m < A.smallest m) then A.advance m
      else A.smallest m := by
  unfold smallest
  rw [List.range_succ, List.map_append, List.filter_append]
  by_cases hpos : 0 < A.advance m
  · have hone : [A.advance m].filter (0 < ·) = [A.advance m] := by simp [hpos]
    rw [show List.map A.advance [m] = [A.advance m] from rfl, hone, min?_concat, Option.getD_some]
    cases hmin : (((List.range m).map A.advance).filter (0 < ·)).min? with
    | none => simp [hpos]
    | some b =>
      have hb : b ∈ ((List.range m).map A.advance).filter (0 < ·) := List.min?_mem hmin
      have hbpos : 0 < b := of_decide_eq_true (List.mem_filter.mp hb).2
      rw [Option.elim_some, Option.getD_some]
      by_cases hlt : A.advance m < b
      · rw [min_eq_right hlt.le, if_pos ⟨hpos, .inr hlt⟩]
      · rw [min_eq_left (not_lt.mp hlt), if_neg (by rintro ⟨-, h | h⟩; exacts [hbpos.ne' h, hlt h])]
  · have hnone : [A.advance m].filter (0 < ·) = [] := by simp [hpos]
    rw [show List.map A.advance [m] = [A.advance m] from rfl, hnone, List.append_nil,
      if_neg (fun h => hpos h.1)]

/-- The deficit, from the one before it. -/
theorem owed_succ (A : Account) (m : ℕ) :
    A.owed (m + 1) = max (A.owed m + A.advance m - (A.call m).frames) (-A.bound (m + 1)) := by
  unfold owed
  rw [← Reflected.sum_eq_largest, ← Reflected.sum_eq_largest, Reflected.sum]
  congr 1
  unfold step
  ring

theorem owed_zero (A : Account) : A.owed 0 = 0 := rfl

/-! ## The run of the code -/

/-- The state that the first call of an account leaves. -/
structure Opens (A : Account) (c : Continuity) : Prop where
  rate : c.rate = A.rate
  lastTicks : c.lastTicks = some A.opened
  owed : c.owed = 0
  cycle : c.cycle = 0
  unrepaid : c.unrepaid = none

/-- An account opens with the first call there is, with the first after `restart`, and with a call
that restarts. -/
theorem Opens.of_first {c : Continuity} (hrate : c.rate = A.rate) {first : Call}
    (hticks : first.ticks = A.opened)
    (h : c.restarts first = true ∨
      c.lastTicks = none ∧ c.owed = 0 ∧ c.cycle = 0 ∧ c.unrepaid = none) :
    A.Opens (c.delivered first).2 ∧ (c.delivered first).1 = none := by
  obtain ⟨hrate', hlast, howed, hcycle, hunrepaid⟩ := c.measure_keeps first.frames
  unfold Continuity.delivered
  cases hr : c.restarts first with
  | true => exact ⟨⟨hrate'.trans hrate, congrArg some hticks, rfl, rfl, rfl⟩, rfl⟩
  | false =>
    obtain ⟨hnone, hzero, hcycle0, hunrepaid0⟩ := h.resolve_left (by simp [hr])
    simp only [Bool.false_eq_true, if_false, hlast, hnone]
    exact ⟨⟨hrate'.trans hrate, congrArg some hticks, howed.trans hzero, hcycle.trans hcycle0,
      hunrepaid.trans hunrepaid0⟩, trivial⟩

/-- The confirmation counter after `m` calls: none where the deficit is within the tolerance, and
else what was delivered since the call that it last rose past it at. -/
inductive Counts (A : Account) (m : ℕ) : Option ℚ → Prop
  | within (h : A.owed m ≤ A.tolerance) : Counts A m none
  | since (i : ℕ) (hi : i < m) (hbelow : A.owed i ≤ A.tolerance)
      (hstands : ∀ l, i < l → l ≤ m → A.tolerance < A.owed l) :
      Counts A m (some (A.delivered m - A.delivered (i + 1)))

/-- The state of the code after the first `m` calls. -/
structure Tracks (A : Account) (c : Continuity) (m : ℕ) : Prop where
  rate : c.rate = A.rate
  lastTicks : c.lastTicks = some (A.before m)
  owed : c.owed = A.owed m
  cycle : c.cycle = A.smallest m
  unrepaid : Counts A m c.unrepaid

theorem Opens.tracks {c : Continuity} (h : A.Opens c) : Tracks A c 0 where
  rate := h.rate
  lastTicks := h.lastTicks
  owed := h.owed
  cycle := h.cycle
  unrepaid := by
    rw [h.unrepaid]
    exact .within (by rw [owed_zero]; exact A.tolerance_nonneg)

/-- **One call**: the account goes on, and a loss is returned exactly when the account has one. -/
theorem Tracks.delivered {c : Continuity} {m : ℕ} (h : Tracks A c m)
    (hkeep : c.restarts (A.call m) = false) :
    Tracks A (c.delivered (A.call m)).2 (m + 1) ∧
      ∀ loss, (c.delivered (A.call m)).1 = some loss ↔
        (∃ i, A.Outlived i (m + 1)) ∧ loss = A.owed (m + 1) / A.rate := by
  have htolerance : c.tolerance = A.tolerance := by
    unfold Continuity.tolerance tolerance
    rw [h.rate]
  obtain ⟨hrate, hticks, hcycle, howed, hcounts⟩ := Continuity.delivered_spec h.lastTicks hkeep
    (show A.advance m = Continuity.expected c.rate (A.before m) (A.call m) by rw [h.rate]; rfl)
    (show A.smallest (m + 1) = _ by rw [h.cycle]; exact A.smallest_succ m)
    (show A.owed (m + 1) = _ by rw [h.owed, htolerance]; exact A.owed_succ m)
  rw [htolerance, h.rate] at hcounts
  -- the counter and what is returned are told together
  suffices hboth : Counts A (m + 1) (c.delivered (A.call m)).2.unrepaid ∧
      ∀ loss, (c.delivered (A.call m)).1 = some loss ↔
        (∃ i, A.Outlived i (m + 1)) ∧ loss = A.owed (m + 1) / A.rate from
    ⟨⟨hrate.trans h.rate, hticks, howed, hcycle, hboth.1⟩, hboth.2⟩
  have hcount := h.unrepaid
  rcases hcounts with ⟨hwithin, hnone, hreturned⟩ | ⟨hover, hwas, hnew, hreturned⟩ |
    ⟨arrived, hover, hwas, hnew, hreturned⟩
  · rw [hnone, hreturned]
    refine ⟨.within hwithin, fun loss => iff_of_false (by simp) ?_⟩
    rintro ⟨⟨i, hi⟩, -⟩
    exact absurd (hi.stands (m + 1) hi.lt.le le_rfl) (not_lt.mpr hwithin)
  · -- the deficit opens with this call
    rw [hwas] at hcount
    cases hcount with
    | within hbelow =>
      rw [hnew, hreturned]
      refine ⟨?_, fun loss => iff_of_false (by simp) ?_⟩
      · have hsince := Counts.since m (Nat.lt_succ_self m) hbelow fun l hl hle => by
          obtain rfl : l = m + 1 := by omega
          exact hover
        rwa [sub_self] at hsince
      · rintro ⟨⟨i, hi⟩, -⟩
        exact absurd (hi.stands m (Nat.lt_succ_iff.mp hi.lt) (Nat.le_succ m)) (not_lt.mpr hbelow)
  · rw [hwas] at hcount
    cases hcount with
    | since i him hbelow hstands =>
      have hsum : A.delivered m - A.delivered (i + 1) + (A.call m).frames =
          A.delivered (m + 1) - A.delivered (i + 1) := by
        rw [delivered_succ A m]
        ring
      rw [hsum] at hnew hreturned
      have hstands' : ∀ l, i < l → l ≤ m + 1 → A.tolerance < A.owed l := by
        intro l hl hle
        rcases Nat.le_succ_iff.mp hle with hle | rfl
        · exact hstands l hl hle
        · exact hover
      rw [hnew, hreturned]
      refine ⟨.since i (Nat.lt_succ_of_lt him) hbelow hstands', fun loss => ?_⟩
      split
      · next hlater =>
        rw [Option.some_inj]
        constructor
        · rintro rfl
          exact ⟨⟨i + 1, Nat.succ_pos i, Nat.succ_lt_succ him,
            fun l hl hle => hstands' l hl hle, hlater⟩, rfl⟩
        · rintro ⟨-, rfl⟩
          rfl
      · next hlater =>
        refine iff_of_false (by simp) ?_
        rintro ⟨⟨i', hi'⟩, -⟩
        -- a deficit that stands began after the counter did
        have hle : i + 1 ≤ i' := by
          by_contra hlt
          exact absurd (hi'.stands i (by omega) (by omega)) (not_lt.mpr hbelow)
        have hmono := A.delivered_mono hle
        have hlate := hi'.later
        exact hlater (by linarith)

/-- **The run**, by induction on the calls. -/
theorem Opens.run {c : Continuity} (h : A.Opens c) {n : ℕ} (hkeep : A.Keeps c n) :
    ∀ m ≤ n, Tracks A (A.state c m) m := by
  intro m
  induction m with
  | zero => exact fun _ => h.tracks
  | succ m ih => exact fun hm => ((ih (by omega)).delivered (hkeep m (by omega))).1

/-! ## What follows for a capture -/

/-- The bound at a step that loses more than it is the one before. -/
theorem bound_of_loss {m : ℕ} (h : A.bound (m + 1) < A.step m) : A.bound (m + 1) = A.bound m := by
  have hframes : A.step m ≤ A.advance m := sub_le_self _ (Nat.cast_nonneg _)
  have hsmallest : A.smallest (m + 1) < A.advance m :=
    (le_max_left _ _).trans_lt (h.trans_le hframes)
  unfold bound
  rw [A.smallest_succ m] at hsmallest ⊢
  split at hsmallest
  · exact absurd hsmallest (lt_irrefl _)
  · next hkept => rw [if_neg hkept]

theorem neg_bound_le_owed (A : Account) (m : ℕ) : -A.bound m ≤ A.owed m := by
  cases m with
  | zero =>
    rw [owed_zero]
    exact neg_nonpos.mpr (A.tolerance_nonneg.trans (le_max_right _ _))
  | succ m =>
    rw [owed_succ]
    exact le_max_right _ _

theorem add_step_le_owed (A : Account) (m : ℕ) : A.owed m + A.step m ≤ A.owed (m + 1) := by
  rw [owed_succ, step, ← add_sub_assoc]
  exact le_max_left _ _

/-- A capture in phase owes nothing. -/
theorem owed_le_of_phase {n : ℕ}
    (h : ∀ m ≤ n, A.free m ≤ A.tolerance ∧ ∀ j, 0 < j → j ≤ n → -A.bound j ≤ A.free m) :
    ∀ m ≤ n, A.owed m ≤ A.tolerance := by
  intro m hm
  refine Reflected.largest_le_iff.mpr ⟨(h m hm).1, fun j hj => ?_⟩
  have hfree : Reflected.free A.step m ≤ A.tolerance := (h m hm).1
  have hbound : -A.bound (j + 1) ≤ Reflected.free A.step (j + 1) :=
    (h (j + 1) (by omega)).2 (j + 1) (Nat.succ_pos j) (by omega)
  linarith

/-- A loss that is never repaid stands. -/
theorem stands_of_loss {j k : ℕ} (hloss : A.bound (j + 1) + A.tolerance < A.step j)
    (hrepaid : ∀ m, j < m → m < k → ((A.call m).frames : ℚ) ≤ A.advance m) :
    ∀ m, j + 1 ≤ m → m ≤ k → A.tolerance < A.owed m := by
  intro m hjm
  induction m, hjm using Nat.le_induction with
  | base =>
    intro _
    have hsame := bound_of_loss ((le_add_of_nonneg_right A.tolerance_nonneg).trans_lt hloss)
    have hfloor := A.neg_bound_le_owed j
    have hstep := A.add_step_le_owed j
    linarith
  | succ m hjm ih =>
    intro hm
    have hstep := A.add_step_le_owed m
    have hkept := hrepaid m (by omega) (by omega)
    have hbefore := ih (by omega)
    unfold step at hstep
    linarith

/-- **Lost audio is told from phase.** Within an account, a call returns a loss exactly where a
deficit past the tolerance has outlived enough later audio, and the loss is that deficit. So a
capture in phase never faults, and a step that loses more than phase explains, and is never repaid,
is reported after `LOSS_CONFIRM` more audio. -/
theorem delivered_exact (A : Account) {c : Continuity} (hopen : A.Opens c) {n : ℕ}
    (hkeep : A.Keeps c n) :
    (∀ m < n, ∀ loss, A.returned c m = some loss ↔
      (∃ i, A.Outlived i (m + 1)) ∧ loss = A.owed (m + 1) / A.rate) ∧
    ((∀ m ≤ n, A.free m ≤ A.tolerance ∧ ∀ j, 0 < j → j ≤ n → -A.bound j ≤ A.free m) →
      (∀ m < n, A.returned c m = none) ∧ ∀ m ≤ n, (A.state c m).outstanding = none) ∧
    (∀ j k, j < k → k < n → A.bound (j + 1) + A.tolerance < A.step j →
      (∀ m, j < m → m ≤ k → ((A.call m).frames : ℚ) ≤ A.advance m) →
      LOSS_CONFIRM * A.rate ≤ A.delivered (k + 1) - A.delivered (j + 1) →
      A.returned c k = some (A.owed (k + 1) / A.rate)) := by
  have hrun := hopen.run hkeep
  have hexact : ∀ m < n, ∀ loss, A.returned c m = some loss ↔
      (∃ i, A.Outlived i (m + 1)) ∧ loss = A.owed (m + 1) / A.rate :=
    fun m hm => ((hrun m hm.le).delivered (hkeep m hm)).2
  refine ⟨hexact, fun hphase => ⟨fun m hm => ?_, fun m hm => ?_⟩, ?_⟩
  · cases hloss : A.returned c m with
    | none => rfl
    | some loss =>
      obtain ⟨⟨i, hi⟩, -⟩ := (hexact m hm loss).mp hloss
      exact absurd (hi.stands (m + 1) hi.lt.le le_rfl)
        (not_lt.mpr (owed_le_of_phase hphase (m + 1) hm))
  · unfold Continuity.outstanding
    have hle := owed_le_of_phase hphase m hm
    have htolerance : (A.state c m).tolerance = A.tolerance := by
      unfold Continuity.tolerance tolerance
      rw [(hrun m hm).rate]
    have hnonneg := A.tolerance_nonneg
    have hmax : A.tolerance ≤ max (A.state c m).cycle A.tolerance := le_max_right _ _
    rw [htolerance, (hrun m hm).owed, if_neg (by linarith)]
  · intro j k hjk hk hloss hrepaid hlater
    refine (hexact k hk _).mpr ⟨⟨j + 1, Nat.succ_pos j, by omega, ?_, hlater⟩, rfl⟩
    exact stands_of_loss hloss fun m hjm hm => hrepaid m hjm (by omega)

end Account

/-- A capture that misses ten cycles at its second call, and none after it. -/
def missedCycles : Account where
  rate := 48000
  opened := 0
  call m :=
    { ticks := if m = 0 then 1024 else 1024 * (m + 11)
      graphRate := (1, 48000)
      frames := 1024 }

/-- What the call before these leaves. -/
def missedCyclesOpened : Continuity :=
  ((Continuity.new 48000).delivered { ticks := 0, graphRate := (1, 48000), frames := 1024 }).2

/-- Ten calls later they are reported. -/
theorem missedCycles_reported :
    missedCycles.returned missedCyclesOpened 11 =
      some (missedCycles.owed 12 / missedCycles.rate) := by
  have hkeep : ∀ m < 12, (missedCycles.state missedCyclesOpened m).restarts (missedCycles.call m) =
      false := by decide +kernel
  have hrepaid : ∀ m < 12, 1 < m →
      ((missedCycles.call m).frames : ℚ) ≤ missedCycles.advance m := by decide +kernel
  exact (missedCycles.delivered_exact (c := missedCyclesOpened)
    (Account.Opens.of_first rfl rfl (.inr ⟨rfl, rfl, rfl, rfl⟩)).1 (n := 12) hkeep).2.2 1 11
    (by decide) (by decide) (by decide +kernel)
    (fun m hjm hm => hrepaid m (by omega) hjm) (by decide +kernel)

end Native

end Myna
