import Myna.Desktop.Lease
import Myna.Lib.StepSystem
import Mathlib.Data.List.Nodup

/-!
# Myna — a lease writes into one field

The focus calls of the daemon, activations, blips that run out and writes, over whole runs. A world
keeps beside the engine's state what the daemon knows (which context has focus, and whether it is
out) and what has happened to the current lease.

* **`Step`** — the daemon's rules are the guards of its calls;
* **`World.Agrees`**, **`World.WroteTo`** — what each binding says of the focus calls and of the
  clock, and of the field that was written to;
* **`focus_inv`** — the invariant survives a focus call.
-/

namespace Myna

namespace Desktop

namespace Ibus

/-! ## Runs -/

/-- A focus call, with the context that the daemon means even where it does not name it. -/
inductive FocusCall
  | focusIn (ctx : Context) (named : Bool)
  | focusOut (path : Option String)

def FocusCall.change : FocusCall → FocusChange
  | .focusIn ctx named => .focusIn (if named then some ctx else none)
  | .focusOut path => .focusOut path

structure World where
  state : EngineState := {}
  -- the context that was focused last, and whether a FocusOut came since
  current : Option Context := none
  out : Bool := true
  -- of the current lease: its acquire has returned, its latest focus call, a call since then
  acquired : Bool := false
  latest : Option FocusChange := none
  moved : Bool := false
  activations : List ℕ := []
  -- when focus left in the latest blip, and when it came last
  left : ℕ := 0
  returned : ℕ := 0
  -- the blips, with their leases; the writes, with theirs and the field that has focus
  blips : List (ℕ × ℕ) := []
  writes : List (ℕ × Option String) := []

namespace World

/-- The field a write goes to. -/
def place (w : World) : Option String := if w.out then none else w.current.map Context.path

/-- The daemon focuses another context, its own placeholder included, only after a FocusOut, and a
FocusOut that names a context names the one that has focus. -/
def Obeys (w : World) : FocusCall → Prop
  | .focusIn ctx _ => w.out = true ∨ w.current = some ctx
  | .focusOut path => ∀ p ∈ path, ∀ ctx ∈ w.current, p = ctx.path

def focus (w : World) (call : FocusCall) : World :=
  let state := w.state.focus call.change
  let began := state.lease.away = some w.state.nextBlip
  let w' := { w with
    state, latest := some call.change, moved := true,
    left := if began then w.state.now else w.left,
    blips := if began then w.blips ++ [(w.state.nextBlip, state.lease.id)] else w.blips }
  match call with
  | .focusIn ctx _ => { w' with current := some ctx, out := false, returned := w.state.now }
  | .focusOut _ => { w' with out := true }

def activated (w : World) (id : ℕ) : World :=
  { w with
    state := w.state.activated id,
    activations :=
      if w.state.lease.heldBy id then w.activations ++ [w.state.now] else w.activations }

end World

inductive Step : World → World → Prop
  | tick (w : World) (elapsed : ℕ)
      -- no task sleeps past its time
      (h : ∀ g ∈ w.state.graces, w.state.now + elapsed ≤ g.wake) :
      Step w { w with state := { w.state with now := w.state.now + elapsed } }
  | focus (w : World) (call : FocusCall) (h : w.Obeys call) : Step w (w.focus call)
  | activated (w : World) (id : ℕ) : Step w (w.activated id)
  | activatedCurrent (w : World) :
      Step w { w.activated w.state.lease.id with state := w.state.activatedCurrent }
  | wake (w : World) (g : Grace) (hg : g ∈ w.state.graces) (h : g.wake ≤ w.state.now) :
      Step w { w with state := w.state.wake g }
  | mint (w : World) :
      Step w { w with
        state := w.state.mint.2
        acquired := false
        latest := none
        activations := [] }
  | unfocus (w : World) (id : ℕ) : Step w { w with state := w.state.unfocus id }
  | acquire (w : World) (h : w.state.lease.binding ≠ .pending) :
      Step w { w with acquired := true, moved := false }
  | write (w : World) (id : ℕ) (hid : id = w.state.lease.id) (hacquired : w.acquired = true)
      (h : w.state.lease.standing id = some .held) :
      Step w { w with state := w.state.wrote id, writes := w.writes ++ [(id, w.place)] }
  | surrounding (w : World) (c : Option Char) : Step w { w with state := w.state.surrounding c }
  | retire (w : World) (id : ℕ) : Step w { w with state := (w.state.retire id).2 }
  | taken (w : World) (id : ℕ) : Step w { w with state := w.state.taken id }

def Reachable (w : World) : Prop := StepSystem.Reachable Step {} w

/-! ## The invariant -/

namespace World

/-- The task that ends blip `b`: in its window, or in the grace of what `activated` explains. -/
def Clock (w : World) (b : ℕ) (activated : Bool) : Prop :=
  ∃ g ∈ w.state.graces, g.blip = b ∧ g.since = w.left ∧
    if g.windowOver then
      activated = true ∧
        g.wake ≤ max w.left (w.state.lease.activatedAt.getD w.left) + FOCUS_BLIP_GRACE
    else g.wake ≤ w.left + ACTIVATION_WINDOW

/-- An activation came within the window of focus leaving. -/
def Explained (w : World) : Prop :=
  ∃ a ∈ w.activations, a ≤ w.left + ACTIVATION_WINDOW ∧ w.left ≤ a + ACTIVATION_WINDOW

/-- The latest focus call was a focus-in on the context at `path`, which has focus. -/
def FocusedOn (w : World) (path : String) : Prop :=
  ∃ ctx, w.latest = some (.focusIn (some ctx)) ∧ ctx.path = path ∧ w.current = some ctx ∧
    w.out = false

/-- What a binding says of the focus calls and of the clock. -/
def Agrees (w : World) : Prop :=
  match w.state.lease.binding with
  | .pending => w.acquired = false
  | .unnamed => w.latest = some (.focusIn none) ∧ w.out = false ∧ w.current.isSome
  | .left b => w.state.lease.wrote = false ∧ w.Clock b true
  | .context path => w.FocusedOn path
  | .away path b activated back =>
    w.Clock b activated ∧ (activated = true → w.Explained) ∧
      (back = true → activated = false ∧ w.FocusedOn path ∧ w.left ≤ w.returned ∧
        ∀ ctx ∈ w.current, ctx.isFake = false)
  | .unfocused => w.acquired = true → w.moved = false
  | .lost => True

/-- Where the lease wrote, if it did. -/
def WroteTo (w : World) (p : Option String) : Prop :=
  match w.state.lease.binding with
  | .pending | .left _ => False
  | .unnamed | .unfocused => p = w.place
  | .context path | .away path _ _ _ => p = some path
  | .lost => True

structure Inv (w : World) : Prop where
  id : w.state.lease.id < w.state.nextLease
  agrees : w.Agrees
  awake : ∀ g ∈ w.state.graces, w.state.now ≤ g.wake
  spawned : ∀ g ∈ w.state.graces, g.blip < w.state.nextBlip
  graces : (w.state.graces.map Grace.blip).Nodup
  began : ∀ e ∈ w.blips, e.1 < w.state.nextBlip
  once : (w.blips.map Prod.fst).Nodup
  owned : ∀ b, w.state.lease.away = some b → (b, w.state.lease.id) ∈ w.blips
  activatedAt : ∀ t, w.state.lease.activatedAt = some t → t ∈ w.activations
  past : ∀ t ∈ w.activations, t ≤ w.state.now
  left : w.left ≤ w.state.now
  returned : w.returned ≤ w.state.now
  writes : ∀ e ∈ w.writes, e.1 ≤ w.state.lease.id
  wrote : ∀ p, (w.state.lease.id, p) ∈ w.writes →
    w.acquired = true ∧ w.state.lease.wrote = true ∧ w.WroteTo p
  same : ∀ id p q, (id, p) ∈ w.writes → (id, q) ∈ w.writes → p = q

end World

/-! ## What a focus call changes -/

namespace Lease

variable (l : Lease) (now blip : ℕ) (change : FocusChange)

@[simp] theorem focus_id : (l.focus now change blip).id = l.id := by
  unfold focus
  split <;> (repeat' split) <;> rfl

@[simp] theorem focus_wrote : (l.focus now change blip).wrote = l.wrote := by
  unfold focus
  split <;> (repeat' split) <;> rfl

@[simp] theorem focus_activatedAt : (l.focus now change blip).activatedAt = l.activatedAt := by
  unfold focus
  split <;> (repeat' split) <;> rfl

end Lease

namespace EngineState

theorem expire_now (s : EngineState) (blip : ℕ) (even : Bool) :
    (s.expire blip even).now = s.now ∧ (s.expire blip even).nextLease = s.nextLease ∧
      (s.expire blip even).nextBlip = s.nextBlip ∧ (s.expire blip even).graces = s.graces ∧
      (s.expire blip even).lease.id = s.lease.id ∧
      (s.expire blip even).lease.wrote = s.lease.wrote ∧
      (s.expire blip even).lease.activatedAt = s.lease.activatedAt := by
  unfold expire
  split <;> simp

/-- An expiry ends the lease that is away in its blip, and no other. -/
theorem expire_lease (s : EngineState) (blip : ℕ) (even : Bool) :
    s.expire blip even = s ∨
      (s.expire blip even).lease.binding = .lost ∧ s.lease.away = some blip := by
  unfold expire
  split
  case isTrue h => exact .inr ⟨rfl, h.1⟩
  case isFalse => exact .inl rfl

/-- What a focus call makes of the lease, but for the case that no task could end its blip. -/
def focused (s : EngineState) (change : FocusChange) : Lease :=
  s.lease.focus s.now change s.nextBlip

theorem focus_eq (s : EngineState) (change : FocusChange) :
    (s.focus change).now = s.now ∧ (s.focus change).nextLease = s.nextLease ∧
      (s.focus change).nextBlip = s.nextBlip + 1 ∧
      (((s.focused change).away = some s.nextBlip ∧ (s.focus change).lease = s.focused change ∧
          (s.focus change).graces
            = s.graces ++ [⟨s.nextBlip, s.now, s.now + ACTIVATION_WINDOW, false⟩]) ∨
        ((s.focused change).away ≠ some s.nextBlip ∧ (s.focus change).lease = s.focused change ∧
          (s.focus change).graces = s.graces) ∨
        ((s.focus change).lease.binding = .lost ∧ (s.focus change).lease.id = s.lease.id ∧
          (s.focus change).lease.wrote = s.lease.wrote ∧
          (s.focus change).lease.activatedAt = s.lease.activatedAt ∧
          (s.focus change).graces = s.graces)) := by
  obtain ⟨shell, xim, hnote⟩ : ∃ shell xim,
      s.noteClient change = { s with shellFocused := shell, ximFocused := xim } := by
    unfold noteClient
    split
    · split
      · exact ⟨_, _, rfl⟩
      · exact ⟨_, _, rfl⟩
    · exact ⟨_, _, rfl⟩
  unfold focus focused
  rw [hnote]
  dsimp only
  split
  case isTrue haway =>
    split
    · exact ⟨rfl, rfl, rfl, .inl ⟨haway, rfl, rfl⟩⟩
    · -- without a task the blip is a loss at once
      refine ⟨(expire_now _ _ _).1, (expire_now _ _ _).2.1, (expire_now _ _ _).2.2.1,
        .inr (.inr ?_)⟩
      rw [expire, if_pos ⟨haway, rfl⟩]
      exact ⟨rfl, by simp, by simp, by simp, rfl⟩
  case isFalse haway => exact ⟨rfl, rfl, rfl, .inr (.inl ⟨haway, rfl, rfl⟩)⟩

end EngineState

namespace World

/-- An activation no longer ago than the window. -/
def Recent (s : EngineState) : Bool :=
  s.lease.activatedAt.any fun t => s.now - t ≤ ACTIVATION_WINDOW

/-- Where a blip begins: at a focus that nothing was written to, or at a field's FocusOut. -/
theorem began_cases {s : EngineState} {change : FocusChange}
    (hold : ∀ b, s.lease.away = some b → b < s.nextBlip)
    (h : (s.focused change).away = some s.nextBlip) :
    (s.lease.binding = .unnamed ∧ s.lease.wrote = false ∧
      (s.focused change).binding = .left s.nextBlip) ∨
    ∃ path out, change = .focusOut out ∧
      (s.focused change).binding = .away path s.nextBlip (Recent s) false ∧
      (s.lease.binding = .context path ∨
        s.lease.binding = .unnamed ∧ s.lease.wrote = true ∧ out = some path) := by
  have hstale : ∀ b, s.lease.away = some b → b ≠ s.nextBlip := fun b hb => by
    have := hold b hb
    omega
  unfold EngineState.focused at h ⊢
  cases hb : s.lease.binding with
  | pending =>
    rcases change with _ | ⟨ctx⟩
    · rename_i ctx
      cases ctx with
      | none => simp [Lease.focus, hb, Lease.away] at h
      | some ctx => cases hf : ctx.isFake <;> simp [Lease.focus, hb, Lease.away, hf] at h
    · simp [Lease.focus, hb, Lease.away] at h
  | unnamed =>
    cases hw : s.lease.wrote with
    | false =>
      left
      refine ⟨rfl, rfl, ?_⟩
      rcases change with ctx | path
      · cases ctx with
        | none => simp [Lease.focus, hb, Lease.away] at h
        | some ctx =>
          cases hf : ctx.isFake with
          | true => simp [Lease.focus, hb, hw, hf]
          | false => simp [Lease.focus, hb, Lease.away, hf] at h
      · simp [Lease.focus, hb, hw]
    | true =>
      right
      rcases change with ctx | path
      · cases ctx with
        | none => simp [Lease.focus, hb, Lease.away] at h
        | some ctx => cases hf : ctx.isFake <;> simp [Lease.focus, hb, Lease.away, hf, hw] at h
      · cases path with
        | none => simp [Lease.focus, hb, Lease.away, hw] at h
        | some path =>
          exact ⟨path, some path, rfl, by simp [Lease.focus, hb, hw, Recent], .inr ⟨rfl, rfl, rfl⟩⟩
  | context path =>
    right
    rcases change with ctx | out
    · cases ctx with
      | none => simp [Lease.focus, hb, Lease.away] at h
      | some ctx =>
        by_cases hp : path = ctx.path <;> simp [Lease.focus, hb, Lease.away, hp] at h
    · exact ⟨path, out, rfl, by simp [Lease.focus, hb, Recent], .inl rfl⟩
  | left b =>
    have := hstale b (by simp [Lease.away, hb])
    rcases change with ctx | out
    · cases ctx with
      | none => simp [Lease.focus, hb, Lease.away] at h
      | some ctx => cases hf : ctx.isFake <;> simp [Lease.focus, hb, Lease.away, hf, this] at h
    · simp [Lease.focus, hb, Lease.away, this] at h
  | away path b act back =>
    have := hstale b (by simp [Lease.away, hb])
    rcases change with ctx | out
    · cases ctx with
      | none => simp [Lease.focus, hb, Lease.away] at h
      | some ctx =>
        cases hf : ctx.isFake <;> cases act <;> by_cases hp : path = ctx.path <;>
          simp [Lease.focus, hb, Lease.away, hf, hp, this] at h
    · simp [Lease.focus, hb, Lease.away, this] at h
  | unfocused =>
    rcases change with ctx | out
    · cases ctx <;> simp [Lease.focus, hb, Lease.away] at h
    · simp [Lease.focus, hb, Lease.away] at h
  | lost =>
    rcases change with ctx | out
    · cases ctx <;> simp [Lease.focus, hb, Lease.away] at h
    · simp [Lease.focus, hb, Lease.away] at h

section

variable {w : World} {call : FocusCall}

theorem focus_state (w : World) (call : FocusCall) :
    (w.focus call).state = w.state.focus call.change := by
  cases call <;> rfl

theorem focus_acquired (w : World) (call : FocusCall) :
    (w.focus call).acquired = w.acquired := by
  cases call <;> rfl

theorem focus_activations (w : World) (call : FocusCall) :
    (w.focus call).activations = w.activations := by
  cases call <;> rfl

theorem focus_writes (w : World) (call : FocusCall) : (w.focus call).writes = w.writes := by
  cases call <;> rfl

theorem focus_left (w : World) (call : FocusCall) : (w.focus call).left =
    if (w.state.focus call.change).lease.away = some w.state.nextBlip then w.state.now
    else w.left := by
  cases call <;> rfl

theorem focus_blips (w : World) (call : FocusCall) : (w.focus call).blips =
    if (w.state.focus call.change).lease.away = some w.state.nextBlip then
      w.blips ++ [(w.state.nextBlip, (w.state.focus call.change).lease.id)]
    else w.blips := by
  cases call <;> rfl

theorem stale_blip (h : w.Inv) : ∀ b, w.state.lease.away = some b → b < w.state.nextBlip :=
  fun b hb => h.began _ (h.owned b hb)

/-- Focus that left just now, with the task that waits for it. -/
theorem focus_clock
    (hbegan : (w.state.focus call.change).lease.away = some w.state.nextBlip)
    (hgraces : (w.state.focus call.change).graces
      = w.state.graces ++ [⟨w.state.nextBlip, w.state.now, w.state.now + ACTIVATION_WINDOW, false⟩])
    (act : Bool) : (w.focus call).Clock w.state.nextBlip act := by
  have hleft : (w.focus call).left = w.state.now := by
    rw [focus_left, if_pos hbegan]
  refine ⟨⟨w.state.nextBlip, w.state.now, w.state.now + ACTIVATION_WINDOW, false⟩, ?_, rfl, ?_, ?_⟩
  · rw [focus_state, hgraces]
    simp
  · exact hleft.symm
  · rw [if_neg (by simp), hleft]

/-- A call that begins no blip leaves the clocks alone. -/
theorem focus_keeps_clock (hbegan : (w.state.focus call.change).lease.away ≠ some w.state.nextBlip)
    (hgraces : (w.state.focus call.change).graces = w.state.graces)
    (hat : (w.state.focus call.change).lease.activatedAt = w.state.lease.activatedAt) {b : ℕ}
    {act : Bool} (h : w.Clock b act) : (w.focus call).Clock b act := by
  have hleft : (w.focus call).left = w.left := by
    rw [focus_left, if_neg hbegan]
  unfold Clock
  rw [focus_state, hgraces, hat, hleft]
  exact h

theorem recent_explained (h : w.Inv)
    (hbegan : (w.state.focus call.change).lease.away = some w.state.nextBlip)
    (hrecent : Recent w.state = true) : (w.focus call).Explained := by
  unfold Recent at hrecent
  cases hat : w.state.lease.activatedAt with
  | none =>
    rw [hat] at hrecent
    cases hrecent
  | some t =>
    rw [hat] at hrecent
    have hclose : w.state.now - t ≤ ACTIVATION_WINDOW := of_decide_eq_true hrecent
    have hmem := h.activatedAt t hat
    have hpast := h.past t hmem
    refine ⟨t, ?_, ?_⟩
    · rw [focus_activations]
      exact hmem
    · rw [focus_left, if_pos hbegan]
      omega

/-- After a focus-in, focus is on its context. -/
theorem focusIn_on (ctx : Context) :
    (w.focus (.focusIn ctx true)).FocusedOn ctx.path := ⟨ctx, rfl, rfl, rfl, rfl⟩

theorem focus_agrees (h : w.Inv) (hobeys : w.Obeys call) : (w.focus call).Agrees := by
  have hfocus := (w.state.focus_eq call.change).2.2.2
  rcases hfocus with ⟨hbegan, hlease, hgraces⟩ | ⟨hbegan, hlease, hgraces⟩ | ⟨hlost, -⟩
  · -- a blip begins
    have hbegan' := hbegan
    rw [← hlease] at hbegan'
    unfold Agrees
    rw [focus_state, hlease]
    rcases began_cases (stale_blip h) hbegan with
      ⟨-, hwrote, hnext⟩ | ⟨path, out, -, hnext, -⟩
    · rw [hnext]
      exact ⟨by simpa [EngineState.focused] using hwrote, focus_clock hbegan' hgraces true⟩
    · rw [hnext]
      exact ⟨focus_clock hbegan' hgraces _, recent_explained h hbegan', by simp⟩
  · have hbegan' := hbegan
    rw [← hlease] at hbegan'
    have hat : (w.state.focus call.change).lease.activatedAt = w.state.lease.activatedAt := by
      rw [hlease]
      simp [EngineState.focused]
    have hagrees := h.agrees
    unfold Agrees at hagrees ⊢
    rw [focus_state, hlease]
    unfold EngineState.focused at *
    cases hb : w.state.lease.binding with
    | pending =>
      rw [hb] at hagrees
      rcases call with ⟨ctx, named⟩ | path
      · cases named with
        | false =>
          simp only [FocusCall.change, Lease.focus, hb]
          exact ⟨rfl, rfl, rfl⟩
        | true =>
          cases hf : ctx.isFake with
          | true =>
            simp only [FocusCall.change, Lease.focus, hb, hf, if_true]
            exact hagrees
          | false =>
            simp only [FocusCall.change, Lease.focus, hb, hf, if_true, Bool.false_eq_true, if_false]
            exact focusIn_on ctx
      · simp only [FocusCall.change, Lease.focus, hb]
        exact hagrees
    | unnamed =>
      rcases call with ⟨ctx, named⟩ | path
      · cases named with
        | false => simp [FocusCall.change, Lease.focus, hb]
        | true =>
          cases hf : ctx.isFake with
          | true =>
            cases hw : w.state.lease.wrote with
            | true => simp [FocusCall.change, Lease.focus, hb, hf, hw]
            | false => simp [FocusCall.change, Lease.focus, hb, hf, hw, Lease.away] at hbegan
          | false =>
            simp only [FocusCall.change, Lease.focus, hb, hf, if_true, Bool.false_eq_true, if_false]
            exact focusIn_on ctx
      · cases hw : w.state.lease.wrote with
        | false => simp [FocusCall.change, Lease.focus, hb, hw, Lease.away] at hbegan
        | true =>
          cases path with
          | none => simp [FocusCall.change, Lease.focus, hb, hw]
          | some path => simp [FocusCall.change, Lease.focus, hb, hw, Lease.away] at hbegan
    | left b =>
      rw [hb] at hagrees
      obtain ⟨hwrote, hclock⟩ := hagrees
      have hclock := focus_keeps_clock hbegan' hgraces hat hclock
      rcases call with ⟨ctx, named⟩ | path
      · cases named with
        | false =>
          simp only [FocusCall.change, Lease.focus, hb]
          exact ⟨rfl, rfl, rfl⟩
        | true =>
          cases hf : ctx.isFake with
          | true =>
            simp only [FocusCall.change, Lease.focus, hb, hf, if_true]
            exact ⟨hwrote, hclock⟩
          | false =>
            simp only [FocusCall.change, Lease.focus, hb, hf, if_true, Bool.false_eq_true, if_false]
            exact focusIn_on ctx
      · simp only [FocusCall.change, Lease.focus, hb]
        exact ⟨hwrote, hclock⟩
    | context p =>
      rcases call with ⟨ctx, named⟩ | path
      · cases named with
        | false => simp [FocusCall.change, Lease.focus, hb]
        | true =>
          by_cases hp : p = ctx.path
          · simp only [FocusCall.change, Lease.focus, hb, if_true, if_pos hp]
            rw [hp]
            exact focusIn_on ctx
          · simp [FocusCall.change, Lease.focus, hb, hp]
      · simp [FocusCall.change, Lease.focus, hb, Lease.away] at hbegan
    | away p b act back =>
      rw [hb] at hagrees
      obtain ⟨hclock, hexplained, hback⟩ := hagrees
      have hclock := focus_keeps_clock hbegan' hgraces hat hclock
      have hexplained : act = true → (w.focus call).Explained := by
        intro hact
        unfold Explained
        rw [focus_activations, focus_left, if_neg hbegan']
        exact hexplained hact
      rcases call with ⟨ctx, named⟩ | path
      · cases named with
        | false => simp [FocusCall.change, Lease.focus, hb]
        | true =>
          cases hf : ctx.isFake with
          | true =>
            simp only [FocusCall.change, Lease.focus, hb, hf, if_true]
            refine ⟨hclock, hexplained, fun hbk => ?_⟩
            -- the placeholder comes only after a FocusOut, and focus was back
            obtain ⟨-, ⟨ctx', -, -, hcurrent, hout⟩, -, hreal⟩ := hback hbk
            rcases hobeys with hobeys | hobeys
            · rw [hout] at hobeys
              cases hobeys
            · rw [hreal ctx hobeys] at hf
              cases hf
          | false =>
            by_cases hp : p = ctx.path
            · cases hact : act with
              | false =>
                rw [hact] at hclock
                simp only [FocusCall.change, Lease.focus, hb, hf, hact, if_true, if_pos hp,
                  Bool.false_eq_true, if_false, Bool.not_false]
                refine ⟨hclock, by simp, fun _ => ⟨trivial, ?_, ?_, ?_⟩⟩
                · rw [hp]
                  exact focusIn_on ctx
                · rw [focus_left, if_neg hbegan']
                  exact h.left
                · intro ctx' hctx
                  obtain rfl := Option.some.inj hctx
                  exact hf
              | true =>
                simp only [FocusCall.change, Lease.focus, hb, hf, hact, if_true, if_pos hp,
                  Bool.false_eq_true, if_false, Bool.not_true]
                rw [hp]
                exact focusIn_on ctx
            · simp [FocusCall.change, Lease.focus, hb, hf, hp]
      · simp only [FocusCall.change, Lease.focus, hb]
        exact ⟨hclock, hexplained, by simp⟩
    | unfocused =>
      rcases call with ⟨ctx, named⟩ | path
      · cases named <;> simp [FocusCall.change, Lease.focus, hb]
      · simp [FocusCall.change, Lease.focus, hb]
    | lost =>
      rcases call with ⟨ctx, named⟩ | path
      · cases named <;> simp [FocusCall.change, Lease.focus, hb]
      · simp [FocusCall.change, Lease.focus, hb]
  · unfold Agrees
    rw [focus_state, hlost]
    trivial

/-- What was written stays in the field that the lease is bound to. -/
theorem focus_wroteTo (h : w.Inv) (hobeys : w.Obeys call) {p : Option String}
    (hwrote : w.state.lease.wrote = true) (hp : w.WroteTo p) : (w.focus call).WroteTo p := by
  have hagrees := h.agrees
  unfold Agrees at hagrees
  unfold WroteTo at hp ⊢
  rw [focus_state]
  rcases (w.state.focus_eq call.change).2.2.2 with
    ⟨hbegan, hlease, -⟩ | ⟨hbegan, hlease, -⟩ | ⟨hlost, -⟩
  · rw [hlease]
    rcases began_cases (stale_blip h) hbegan with
      ⟨-, hnot, -⟩ | ⟨path, out, hcall, hnext, hb | ⟨hb, -, rfl⟩⟩
    · rw [hwrote] at hnot
      cases hnot
    · rw [hb] at hp
      rw [hnext]
      exact hp
    · -- the FocusOut names the field that was written to
      rw [hb] at hp hagrees
      rw [hnext]
      obtain ⟨-, hout, hcurrent⟩ := hagrees
      obtain ⟨ctx, hctx⟩ := Option.isSome_iff_exists.mp hcurrent
      rcases call with ⟨ctx', named⟩ | path'
      · cases hcall
      · obtain rfl := FocusChange.focusOut.inj hcall
        rw [hobeys path rfl ctx hctx]
        show p = some ctx.path
        rw [hp, place, hout, hctx]
        rfl
  · rw [hlease]
    unfold EngineState.focused at *
    cases hb : w.state.lease.binding with
    | pending =>
      rw [hb] at hp
      exact hp.elim
    | left b =>
      rw [hb] at hp
      exact hp.elim
    | lost =>
      rcases call with ⟨ctx, named⟩ | path
      · cases named <;> simp [FocusCall.change, Lease.focus, hb]
      · simp [FocusCall.change, Lease.focus, hb]
    | unfocused =>
      rcases call with ⟨ctx, named⟩ | path
      · cases named <;> simp [FocusCall.change, Lease.focus, hb]
      · simp [FocusCall.change, Lease.focus, hb]
    | unnamed =>
      rw [hb] at hp hagrees
      obtain ⟨-, hout, -⟩ := hagrees
      rcases call with ⟨ctx, named⟩ | path
      · cases named with
        | false => simp [FocusCall.change, Lease.focus, hb]
        | true =>
          cases hf : ctx.isFake with
          | true => simp [FocusCall.change, Lease.focus, hb, hf, hwrote]
          | false =>
            -- named now, it is the context that has focus
            have hcurrent : w.current = some ctx := by
              rcases hobeys with hobeys | hobeys
              · rw [hout] at hobeys
                cases hobeys
              · exact hobeys
            simp only [FocusCall.change, Lease.focus, hb, hf, if_true, Bool.false_eq_true, if_false]
            rw [hp, place, hout, hcurrent]
            rfl
      · cases path with
        | none => simp [FocusCall.change, Lease.focus, hb, hwrote]
        | some path => simp [FocusCall.change, Lease.focus, hb, hwrote, Lease.away] at hbegan
    | context q =>
      rw [hb] at hp
      rcases call with ⟨ctx, named⟩ | path
      · cases named with
        | false => simp [FocusCall.change, Lease.focus, hb]
        | true =>
          by_cases hq : q = ctx.path
          · simp only [FocusCall.change, Lease.focus, hb, if_true, if_pos hq]
            exact hp
          · simp [FocusCall.change, Lease.focus, hb, hq]
      · simp [FocusCall.change, Lease.focus, hb, Lease.away] at hbegan
    | away q b act back =>
      rw [hb] at hp
      rcases call with ⟨ctx, named⟩ | path
      · cases named with
        | false => simp [FocusCall.change, Lease.focus, hb]
        | true =>
          cases hf : ctx.isFake with
          | true =>
            simp only [FocusCall.change, Lease.focus, hb, hf, if_true]
            exact hp
          | false =>
            by_cases hq : q = ctx.path
            · cases act with
              | false =>
                simp only [FocusCall.change, Lease.focus, hb, hf, if_true, if_pos hq,
                  Bool.false_eq_true, if_false, Bool.not_false]
                exact hp
              | true =>
                simp only [FocusCall.change, Lease.focus, hb, hf, if_true, if_pos hq,
                  Bool.false_eq_true, if_false, Bool.not_true]
                exact hp
            · simp [FocusCall.change, Lease.focus, hb, hf, hq]
      · simp only [FocusCall.change, Lease.focus, hb]
        exact hp
  · rw [hlost]
    trivial

theorem focus_lease_id (w : World) (call : FocusCall) :
    (w.focus call).state.lease.id = w.state.lease.id := by
  rw [focus_state]
  rcases (w.state.focus_eq call.change).2.2.2 with ⟨-, hl, -⟩ | ⟨-, hl, -⟩ | ⟨-, hl, -⟩
  · rw [hl]
    simp [EngineState.focused]
  · rw [hl]
    simp [EngineState.focused]
  · exact hl

theorem focus_lease_wrote (w : World) (call : FocusCall) :
    (w.focus call).state.lease.wrote = w.state.lease.wrote ∧
      (w.focus call).state.lease.activatedAt = w.state.lease.activatedAt := by
  rw [focus_state]
  rcases (w.state.focus_eq call.change).2.2.2 with ⟨-, hl, -⟩ | ⟨-, hl, -⟩ | ⟨-, -, hl, hat, -⟩
  · rw [hl]
    simp [EngineState.focused]
  · rw [hl]
    simp [EngineState.focused]
  · exact ⟨hl, hat⟩

/-- A blip that a focus call leaves the lease in is the call's own or the one it was in. -/
theorem focus_away (w : World) (call : FocusCall) {b : ℕ}
    (h : (w.focus call).state.lease.away = some b) :
    b = w.state.nextBlip ∨ w.state.lease.away = some b := by
  rw [focus_state] at h
  rcases (w.state.focus_eq call.change).2.2.2 with ⟨hbegan, hl, -⟩ | ⟨-, hl, -⟩ | ⟨hlost, -⟩
  · rw [hl, hbegan] at h
    exact .inl (Option.some.inj h).symm
  · rw [hl] at h
    revert h
    unfold EngineState.focused Lease.focus
    dsimp only
    split <;> (repeat' split) <;> simp_all [Lease.away]
  · simp [Lease.away, hlost] at h

theorem focus_graces (w : World) (call : FocusCall) :
    (w.focus call).state.graces = w.state.graces ∨
      (w.focus call).state.graces = w.state.graces
        ++ [⟨w.state.nextBlip, w.state.now, w.state.now + ACTIVATION_WINDOW, false⟩] := by
  rw [focus_state]
  rcases (w.state.focus_eq call.change).2.2.2 with ⟨-, -, hg⟩ | ⟨-, -, hg⟩ | ⟨-, -, -, -, hg⟩
  · exact .inr hg
  · exact .inl hg
  · exact .inl hg

theorem focus_inv (h : w.Inv) (hobeys : w.Obeys call) : (w.focus call).Inv := by
  obtain ⟨hnow, hlease, hblip, -⟩ := w.state.focus_eq call.change
  have hid := focus_lease_id w call
  obtain ⟨hwrote, hat⟩ := focus_lease_wrote w call
  constructor
  · rw [hid, focus_state, hlease]
    exact h.id
  · exact focus_agrees h hobeys
  · intro g hg
    rw [focus_state, hnow]
    rcases focus_graces w call with hgraces | hgraces
    · rw [hgraces] at hg
      exact h.awake g hg
    · rw [hgraces] at hg
      rcases List.mem_append.mp hg with hg | hg
      · exact h.awake g hg
      · obtain rfl := List.mem_singleton.mp hg
        exact Nat.le_add_right _ _
  · intro g hg
    rw [focus_state, hblip]
    rcases focus_graces w call with hgraces | hgraces
    · rw [hgraces] at hg
      exact Nat.lt_succ_of_lt (h.spawned g hg)
    · rw [hgraces] at hg
      rcases List.mem_append.mp hg with hg | hg
      · exact Nat.lt_succ_of_lt (h.spawned g hg)
      · obtain rfl := List.mem_singleton.mp hg
        exact Nat.lt_succ_self _
  · rcases focus_graces w call with hgraces | hgraces
    · rw [hgraces]
      exact h.graces
    · rw [hgraces, List.map_append]
      apply h.graces.append (List.nodup_singleton _)
      intro b hb hb'
      obtain ⟨g, hg, rfl⟩ := List.mem_map.mp hb
      have := h.spawned g hg
      have heq : g.blip = w.state.nextBlip := List.mem_singleton.mp hb'
      omega
  · intro e he
    rw [focus_state, hblip]
    rw [focus_blips] at he
    split at he
    · rcases List.mem_append.mp he with he | he
      · exact Nat.lt_succ_of_lt (h.began e he)
      · obtain rfl := List.mem_singleton.mp he
        exact Nat.lt_succ_self _
    · exact Nat.lt_succ_of_lt (h.began e he)
  · rw [focus_blips]
    split
    · rw [List.map_append]
      apply h.once.append (List.nodup_singleton _)
      intro b hb hb'
      obtain ⟨e, he, rfl⟩ := List.mem_map.mp hb
      have := h.began e he
      have heq : e.1 = w.state.nextBlip := List.mem_singleton.mp hb'
      omega
    · exact h.once
  · intro b hb
    rw [focus_blips]
    rcases focus_away w call hb with rfl | hold
    · rw [focus_state] at hb ⊢
      rw [if_pos hb]
      simp
    · have hmem := h.owned b hold
      rw [hid]
      split
      · exact List.mem_append_left _ hmem
      · exact hmem
  · intro t ht
    rw [hat] at ht
    rw [focus_activations]
    exact h.activatedAt t ht
  · intro t ht
    rw [focus_activations] at ht
    rw [focus_state, hnow]
    exact h.past t ht
  · rw [focus_left, focus_state, hnow]
    split
    · exact Nat.le_refl _
    · exact h.left
  · rw [focus_state, hnow]
    cases call with
    | focusIn ctx named => exact Nat.le_refl _
    | focusOut path => exact h.returned
  · intro e he
    rw [focus_writes] at he
    rw [hid]
    exact h.writes e he
  · intro p hp
    rw [hid, focus_writes] at hp
    obtain ⟨hacquired, hwritten, hplace⟩ := h.wrote p hp
    rw [focus_acquired, hwrote]
    exact ⟨hacquired, hwritten, focus_wroteTo h hobeys hwritten hplace⟩
  · rw [focus_writes]
    exact h.same

end

end World

end Ibus

end Desktop

end Myna
