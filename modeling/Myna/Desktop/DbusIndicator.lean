import Myna.Desktop.Controller
import Myna.Lib.StepSystem

/-!
# Myna — the indicator on the bus (`myna_desktop::indicator::dbus`)

`set_state` publishes a state and its message, and arms an auto-hide for a notice or an error. Calls
follow one another; an auto-hide runs beside them, from await to await. Where a call aborts it, it
stands at an await, and goes no further. `tr` translates, `holdMsFor` says for how long a message is
held.

* **`World.run`** — calls and auto-hides, from await to await;
* **`upheld_of_apart`** — what holds while no call repeats what an auto-hide has taken off the bus.
-/

namespace Myna

namespace Desktop

namespace DbusIndicator

/-! ## States and messages -/

/-- `wire_state`. -/
inductive WireState
  | idle
  | loading
  | recording
  | transcribing
  | finalizing
  | notice
  | error
deriving DecidableEq

def mapState : IndicatorState → Bool → WireState
  | .hidden, _ => .idle
  | .recording, readySeen => if readySeen then .recording else .loading
  | .transcribing, _ => .transcribing
  | .finalizing, _ => .finalizing
  | .error _ recoverable, _ => if recoverable then .notice else .error

/-- `indicator::status_message`. -/
def statusMessage (tr : String → String) : IndicatorState → Bool → String
  | .hidden, _ => ""
  | .recording, readySeen => if readySeen then tr "Listening" else tr "Loading model…"
  | .transcribing, _ => tr "Transcribing"
  | .finalizing, _ => tr "Finishing"
  | .error message false, _ => (tr "Error: %s").replace "%s" message
  | .error message true, _ => message

def serverHoldMsFor (reason : String) : ℕ :=
  let perCharMs := 48
  let minMs := 6000
  let maxMs := 12000
  min (max (reason.length * perCharMs) minMs) maxMs

/-- A state with its message. -/
structure Shown where
  state : WireState
  statusMessage : String
deriving DecidableEq

def Shown.isTransient (shown : Shown) : Bool := shown.state = .notice ∨ shown.state = .error

def shownFor (tr : String → String) (state : IndicatorState) (readySeen : Bool) : Shown :=
  ⟨mapState state readySeen, statusMessage tr state readySeen⟩

/-! ## Calls and auto-hides -/

/-- The properties that the indicator sets. -/
structure Bus where
  state : WireState := .idle
  statusMessage : String := ""
  audioRms : ℚ := 0
  audioPeak : ℚ := 0

def Bus.shown (bus : Bus) : Shown := ⟨bus.state, bus.statusMessage⟩

/-- Who holds the lock of the bus; `other` publishes levels, and the like. -/
inductive Holder
  | call
  | hide
  | other
deriving DecidableEq

/-- What a call does next. -/
inductive CallStage
  | compare
  | record
  | lockBus
  | setMessage
  | setState
  | finish
deriving DecidableEq

structure Call where
  shown : Shown
  stage : CallStage := .compare

/-- What an auto-hide does next. -/
inductive HideStage
  | sleep
  | check
  | lockBus
  | setMessage
  | setState
  | setRms
  | setPeak
  | unlock
  | record
deriving DecidableEq

structure AutoHide where
  statusMessage : String
  due : ℕ
  stage : HideStage := .sleep
  /-- The call that armed it. -/
  armedBy : ℕ

/-- It has taken what was shown off the bus. -/
def AutoHide.cleared (hide : AutoHide) : Bool :=
  match hide.stage with
  | .setState => hide.statusMessage ≠ ""
  | .setRms | .setPeak | .unlock | .record => true
  | _ => false

/-- What the last call showed, and until when it holds that. -/
structure Returned where
  shown : Shown
  due : Option ℕ
deriving DecidableEq

/-- `now` is in milliseconds. `calls` counts the calls, and `returned` is the last one while no
other has begun. -/
structure World where
  bus : Bus := {}
  holder : Option Holder := none
  last : Option Shown := none
  pendingHide : Option AutoHide := none
  call : Option Call := none
  now : ℕ := 0
  calls : ℕ := 0
  returned : Option Returned := none

namespace World

def cancelAutoHide (w : World) : World :=
  { w with
    pendingHide := none
    -- an aborted task gives its locks back
    holder := if w.holder = some .hide then none else w.holder }

section

variable (holdMsFor : String → ℕ)

def scheduleAutoHide (w : World) (statusMessage : String) : World :=
  { w.cancelAutoHide with
    pendingHide := some
      { statusMessage, due := w.now + holdMsFor statusMessage, armedBy := w.calls } }

/-- `set_state`, as far as the first await of `publish`. -/
def begin (w : World) (shown : Shown) : World :=
  { w.cancelAutoHide with call := some { shown }, calls := w.calls + 1, returned := none }

/-- `set_state`, after `publish`. -/
def finish (w : World) (shown : Shown) : World :=
  let returned := { w with
    call := none
    returned := some ⟨shown,
      if shown.isTransient then some (w.now + holdMsFor shown.statusMessage) else none⟩ }
  if shown.isTransient then returned.scheduleAutoHide holdMsFor shown.statusMessage else returned

/-- A call goes on to its next await. -/
def publish (w : World) (call : Call) : Option World :=
  let next (stage : CallStage) : Option Call := some { call with stage }
  match call.stage with
  | .compare =>
    if w.last = some call.shown then some (w.finish holdMsFor call.shown)
    else some { w with call := next .record }
  | .record => some { w with last := some call.shown, call := next .lockBus }
  | .lockBus =>
    if w.holder = none then some { w with holder := some .call, call := next .setMessage } else none
  | .setMessage =>
    some { w with
      bus := { w.bus with statusMessage := call.shown.statusMessage }
      call := next .setState }
  | .setState =>
    some { w with bus := { w.bus with state := call.shown.state }, call := next .finish }
  | .finish => some ({ w with holder := none }.finish holdMsFor call.shown)

end

/-- An auto-hide goes on to its next await. -/
def autoHide (w : World) (hide : AutoHide) : Option World :=
  let next (stage : HideStage) : Option AutoHide := some { hide with stage }
  match hide.stage with
  | .sleep => if hide.due ≤ w.now then some { w with pendingHide := next .check } else none
  | .check =>
    let isStillThis := w.last.any fun last =>
      last.isTransient && last.statusMessage = hide.statusMessage
    some { w with pendingHide := if isStillThis then next .lockBus else none }
  | .lockBus =>
    if w.holder = none then some { w with holder := some .hide, pendingHide := next .setMessage }
    else none
  | .setMessage =>
    some { w with bus := { w.bus with statusMessage := "" }, pendingHide := next .setState }
  | .setState => some { w with bus := { w.bus with state := .idle }, pendingHide := next .setRms }
  | .setRms => some { w with bus := { w.bus with audioRms := 0 }, pendingHide := next .setPeak }
  | .setPeak => some { w with bus := { w.bus with audioPeak := 0 }, pendingHide := next .unlock }
  | .unlock => some { w with holder := none, pendingHide := next .record }
  | .record => some { w with last := some ⟨.idle, ""⟩, pendingHide := none }

/-- What happens next; `levels` and the lock are those of others on the bus. -/
inductive Act
  | setState (state : IndicatorState) (readySeen : Bool)
  | publish
  | autoHide
  | tick (ms : ℕ)
  | lock
  | levels (rms peak : ℚ)
  | unlock

section

variable (tr : String → String) (holdMsFor : String → ℕ)

/-- Calls follow one another, and begin only where `may` allows it. -/
def act (may : World → Shown → Bool) (w : World) : Act → Option World
  | .setState state readySeen =>
    let shown := shownFor tr state readySeen
    if w.call.isNone && may w shown then some (w.begin shown) else none
  | .publish => w.call.bind (w.publish holdMsFor)
  | .autoHide => w.pendingHide.bind w.autoHide
  | .tick ms => some { w with now := w.now + ms }
  | .lock => if w.holder = none then some { w with holder := some .other } else none
  | .levels rms peak =>
    if w.holder = some .other then
      some { w with bus := { w.bus with audioRms := rms, audioPeak := peak } }
    else none
  | .unlock => if w.holder = some .other then some { w with holder := none } else none

def run (may : World → Shown → Bool) (w : World) (acts : List Act) : Option World :=
  acts.foldlM (act tr holdMsFor may) w

end

end World

/-! ## What the bus owes to the calls -/

/-- The bus shows the latest state. -/
structure Upheld (w : World) : Prop where
  /-- What a call has shown stays until its hold has expired. -/
  stays : ∀ returned, w.returned = some returned →
    (∀ due, returned.due = some due → w.now < due) → w.bus.shown = returned.shown
  /-- An auto-hide runs only while no call has begun since the one that armed it. -/
  own : ∀ hide, w.pendingHide = some hide → w.call = none ∧ hide.armedBy = w.calls
  /-- Where neither a call nor an auto-hide is under way, `last` is what the bus shows. -/
  agrees : w.call = none → (∀ hide, w.pendingHide = some hide → hide.stage = .sleep) →
    0 < w.calls → w.last = some w.bus.shown
  /-- A call is dropped as a duplicate only of what the bus shows. -/
  dropped : ∀ call, w.call = some call → call.stage = .compare → w.last = some call.shown →
    w.bus.shown = call.shown

/-- No call repeats what was shown last when an auto-hide has just taken that off the bus. -/
def apart (w : World) (shown : Shown) : Bool :=
  !(w.last = some shown && w.pendingHide.any AutoHide.cleared)

/-! ## The invariant -/

/-- How far a call has come. -/
def Call.Ok (w : World) (call : Call) : Prop :=
  match call.stage with
  | .compare => w.last = some call.shown → w.bus.shown = call.shown
  | .record => True
  | .lockBus | .setMessage => w.last = some call.shown
  | .setState => w.last = some call.shown ∧ w.bus.statusMessage = call.shown.statusMessage
  | .finish => w.last = some call.shown ∧ w.bus.shown = call.shown

/-- What the bus shows while an auto-hide of `shown` runs. -/
def AutoHide.showing (hide : AutoHide) (shown : Shown) : Shown :=
  match hide.stage with
  | .sleep | .check | .lockBus | .setMessage => shown
  | .setState => ⟨shown.state, ""⟩
  | .setRms | .setPeak | .unlock | .record => ⟨.idle, ""⟩

structure AutoHide.Ok (w : World) (hide : AutoHide) (shown : Shown) : Prop where
  last : w.last = some shown
  transient : shown.isTransient = true
  message : hide.statusMessage = shown.statusMessage
  bus : w.bus.shown = hide.showing shown
  returned : w.returned = some ⟨shown, some hide.due⟩
  expired : hide.stage ≠ .sleep → hide.due ≤ w.now

/-- Where no call and no auto-hide is under way. -/
def Rest (w : World) : Prop :=
  (w.calls = 0 ∧ w.last = none ∧ w.returned = none) ∨ w.last = some w.bus.shown ∧
    ∀ returned, w.returned = some returned → returned.shown = w.bus.shown ∨
      ∃ due, returned.due = some due ∧ due ≤ w.now

structure Inv (w : World) : Prop where
  called : ∀ call, w.call = some call →
    w.pendingHide = none ∧ w.returned = none ∧ call.Ok w
  armed : ∀ hide, w.pendingHide = some hide →
    w.call = none ∧ hide.armedBy = w.calls ∧ ∃ shown, hide.Ok w shown
  rested : w.call = none → w.pendingHide = none → Rest w

theorem inv_init : Inv {} := ⟨nofun, nofun, fun _ _ => .inl ⟨rfl, rfl, rfl⟩⟩

section

variable {w w' : World} {hide : AutoHide} {shown : Shown}
  {tr : String → String} {holdMsFor : String → ℕ}

/-- An auto-hide that has not cleared anything leaves the bus as it was. -/
theorem AutoHide.Ok.uncleared (h : hide.Ok w shown) (hcleared : hide.cleared = false) :
    w.bus.shown = shown := by
  rw [h.bus]
  unfold AutoHide.showing
  unfold AutoHide.cleared at hcleared
  split at hcleared
  · rename_i hstage
    rw [hstage]
    have hempty : hide.statusMessage = "" := by simpa using hcleared
    rw [h.message] at hempty
    show (⟨shown.state, ""⟩ : Shown) = shown
    rw [← hempty]
  · cases hcleared
  · cases hcleared
  · cases hcleared
  · cases hcleared
  · cases hstage : hide.stage <;> first | rfl | contradiction

/-- Where nothing is under way, or what is under way has cleared nothing, the bus shows `last`. -/
theorem Inv.shown_of_apart (h : Inv w) (hcall : w.call = none) (hapart : apart w shown = true)
    (hlast : w.last = some shown) : w.bus.shown = shown := by
  cases hhide : w.pendingHide with
  | none =>
    rcases h.rested hcall hhide with ⟨-, hnone, -⟩ | ⟨hsome, -⟩
    · rw [hlast] at hnone
      cases hnone
    · exact Option.some.inj (hsome.symm.trans hlast)
  | some hide =>
    obtain ⟨-, -, other, hok⟩ := h.armed hide hhide
    obtain rfl := Option.some.inj (hlast.symm.trans hok.last)
    refine hok.uncleared ?_
    simpa [apart, hlast, hhide] using hapart

theorem Inv.begin (h : Inv w) (hcall : w.call = none) (hapart : apart w shown = true) :
    Inv (w.begin shown) := by
  refine ⟨?_, nofun, nofun⟩
  intro call heq
  obtain rfl := Option.some.inj heq
  exact ⟨rfl, rfl, h.shown_of_apart hcall hapart⟩

/-- A call returns with its state on the bus. -/
theorem Inv.finish (hlast : w.last = some shown) (hbus : w.bus.shown = shown)
    (hhide : w.pendingHide = none) : Inv (w.finish holdMsFor shown) := by
  unfold World.finish
  cases htransient : shown.isTransient with
  | false =>
    refine ⟨nofun, fun hide heq => ?_, fun _ _ => .inr ⟨hlast.trans (congrArg some hbus.symm), ?_⟩⟩
    · cases hhide.symm.trans heq
    · intro returned heq
      obtain rfl := Option.some.inj heq
      exact .inl hbus.symm
  | true =>
    refine ⟨nofun, ?_, nofun⟩
    intro hide heq
    obtain rfl := Option.some.inj heq
    exact ⟨rfl, rfl, shown, hlast, htransient, rfl, hbus, rfl, fun hne => absurd rfl hne⟩

theorem inv_calling {call : Call} (hcall : w.call = some call) (hhide : w.pendingHide = none)
    (hreturned : w.returned = none) (hok : call.Ok w) : Inv w := by
  refine ⟨fun call' heq => ?_, fun hide heq => ?_, fun heq _ => ?_⟩
  · obtain rfl := Option.some.inj (hcall.symm.trans heq)
    exact ⟨hhide, hreturned, hok⟩
  · cases hhide.symm.trans heq
  · cases hcall.symm.trans heq

theorem Inv.publish (h : Inv w) {call : Call} (hcall : w.call = some call)
    (hw : w.publish holdMsFor call = some w') : Inv w' := by
  obtain ⟨hhide, hreturned, hok⟩ := h.called call hcall
  cases hstage : call.stage with
  | compare =>
    simp only [World.publish, hstage] at hw
    simp only [Call.Ok, hstage] at hok
    split at hw <;> obtain rfl := Option.some.inj hw
    · rename_i hlast
      exact Inv.finish hlast (hok hlast) hhide
    · exact inv_calling rfl hhide hreturned trivial
  | record =>
    simp only [World.publish, hstage, Option.some.injEq] at hw
    subst hw
    exact inv_calling rfl hhide hreturned rfl
  | lockBus =>
    simp only [World.publish, hstage] at hw
    simp only [Call.Ok, hstage] at hok
    split at hw <;> cases hw
    exact inv_calling rfl hhide hreturned hok
  | setMessage =>
    simp only [World.publish, hstage, Option.some.injEq] at hw
    simp only [Call.Ok, hstage] at hok
    subst hw
    exact inv_calling rfl hhide hreturned ⟨hok, rfl⟩
  | setState =>
    simp only [World.publish, hstage, Option.some.injEq] at hw
    simp only [Call.Ok, hstage] at hok
    obtain ⟨hlast, hmessage⟩ := hok
    subst hw
    refine inv_calling rfl hhide hreturned ⟨hlast, ?_⟩
    show (⟨call.shown.state, w.bus.statusMessage⟩ : Shown) = call.shown
    rw [hmessage]
  | finish =>
    simp only [World.publish, hstage, Option.some.injEq] at hw
    simp only [Call.Ok, hstage] at hok
    subst hw
    exact Inv.finish hok.1 hok.2 hhide

theorem inv_hiding (hhide : w.pendingHide = some hide) (hcall : w.call = none)
    (hcalls : hide.armedBy = w.calls) (hok : hide.Ok w shown) : Inv w := by
  refine ⟨fun call heq => ?_, fun hide' heq => ?_, fun _ heq => ?_⟩
  · cases hcall.symm.trans heq
  · obtain rfl := Option.some.inj (hhide.symm.trans heq)
    exact ⟨hcall, hcalls, shown, hok⟩
  · cases hhide.symm.trans heq

/-- The check of an auto-hide finds what it was armed for. -/
theorem AutoHide.Ok.isStillThis (h : hide.Ok w shown) :
    (w.last.any fun last => last.isTransient && last.statusMessage
      = hide.statusMessage) = true := by
  rw [h.last]
  simp [h.transient, h.message]

/-- An auto-hide whose hold has expired goes on. -/
theorem AutoHide.Ok.goesOn (h : hide.Ok w shown) {stage : HideStage} (hdue : hide.due ≤ w.now)
    (hlast : w'.last = w.last) (hreturned : w'.returned = w.returned) (hnow : w'.now = w.now)
    (hbus : w'.bus.shown = { hide with stage }.showing shown) :
    AutoHide.Ok w' { hide with stage } shown :=
  ⟨hlast.trans h.last, h.transient, h.message, hbus, hreturned.trans h.returned,
    fun _ => hnow ▸ hdue⟩

theorem Inv.autoHide (h : Inv w) (hhide : w.pendingHide = some hide)
    (hw : w.autoHide hide = some w') : Inv w' := by
  obtain ⟨hcall, hcalls, shown, hok⟩ := h.armed hide hhide
  have hbus := hok.bus
  have hexpired := hok.expired
  cases hstage : hide.stage with
  | sleep =>
    simp only [World.autoHide, hstage] at hw
    simp only [AutoHide.showing, hstage] at hbus
    split at hw <;> cases hw
    rename_i hdue
    exact inv_hiding rfl hcall hcalls (hok.goesOn hdue rfl rfl rfl hbus)
  | check =>
    simp only [World.autoHide, hstage, hok.isStillThis, Option.some.injEq] at hw
    simp only [AutoHide.showing, hstage] at hbus
    subst hw
    exact inv_hiding rfl hcall hcalls
      (hok.goesOn (hexpired (by rw [hstage]; nofun)) rfl rfl rfl hbus)
  | lockBus =>
    simp only [World.autoHide, hstage] at hw
    simp only [AutoHide.showing, hstage] at hbus
    split at hw <;> cases hw
    exact inv_hiding rfl hcall hcalls
      (hok.goesOn (hexpired (by rw [hstage]; nofun)) rfl rfl rfl hbus)
  | setMessage =>
    simp only [World.autoHide, hstage, Option.some.injEq] at hw
    simp only [AutoHide.showing, hstage] at hbus
    subst hw
    refine inv_hiding rfl hcall hcalls
      (hok.goesOn (hexpired (by rw [hstage]; nofun)) rfl rfl rfl ?_)
    show (⟨w.bus.state, ""⟩ : Shown) = ⟨shown.state, ""⟩
    rw [← hbus]
    rfl
  | setState =>
    simp only [World.autoHide, hstage, Option.some.injEq] at hw
    simp only [AutoHide.showing, hstage] at hbus
    subst hw
    refine inv_hiding rfl hcall hcalls
      (hok.goesOn (hexpired (by rw [hstage]; nofun)) rfl rfl rfl ?_)
    show (⟨.idle, w.bus.shown.statusMessage⟩ : Shown) = ⟨.idle, ""⟩
    rw [hbus]
  | record =>
    simp only [World.autoHide, hstage, Option.some.injEq] at hw
    simp only [AutoHide.showing, hstage] at hbus
    subst hw
    refine ⟨fun call heq => ?_, nofun, fun _ _ => .inr ⟨congrArg some hbus.symm, ?_⟩⟩
    · cases hcall.symm.trans heq
    · intro returned heq
      obtain rfl := Option.some.inj (hok.returned.symm.trans heq)
      exact .inr ⟨hide.due, rfl, hexpired (by rw [hstage]; nofun)⟩
  | _ =>
    -- levels and the lock
    simp only [World.autoHide, hstage, Option.some.injEq] at hw
    simp only [AutoHide.showing, hstage] at hbus
    subst hw
    exact inv_hiding rfl hcall hcalls
      (hok.goesOn (hexpired (by rw [hstage]; nofun)) rfl rfl rfl hbus)

/-- What touches neither the state and its message, nor what is under way. -/
theorem Inv.others (h : Inv w) (hbus : w'.bus.shown = w.bus.shown) (hlast : w'.last = w.last)
    (hhide : w'.pendingHide = w.pendingHide) (hcall : w'.call = w.call) (hnow : w.now ≤ w'.now)
    (hcalls : w'.calls = w.calls) (hreturned : w'.returned = w.returned) : Inv w' := by
  refine ⟨fun call heq => ?_, fun hide heq => ?_, fun hnone hidle => ?_⟩
  · obtain ⟨hidle, hbegun, hok⟩ := h.called call (hcall ▸ heq)
    refine ⟨hhide.trans hidle, hreturned.trans hbegun, ?_⟩
    unfold Call.Ok at hok ⊢
    have hmessage : w'.bus.statusMessage = w.bus.statusMessage :=
      congrArg Shown.statusMessage hbus
    rw [hbus, hlast, hmessage]
    exact hok
  · obtain ⟨hnone, harmed, shown, hok⟩ := h.armed hide (hhide ▸ heq)
    exact ⟨hcall.trans hnone, harmed.trans hcalls.symm, shown, hlast.trans hok.last, hok.transient,
      hok.message, hbus.trans hok.bus, hreturned.trans hok.returned,
      fun hne => Nat.le_trans (hok.expired hne) hnow⟩
  · have hrest := h.rested (hcall ▸ hnone) (hhide ▸ hidle)
    unfold Rest at hrest ⊢
    rw [hcalls, hlast, hreturned, hbus]
    refine hrest.imp_right fun hshown => ⟨hshown.1, fun returned heq => ?_⟩
    refine (hshown.2 returned heq).imp_right ?_
    rintro ⟨due, hdue, hle⟩
    exact ⟨due, hdue, Nat.le_trans hle hnow⟩

theorem Inv.act (h : Inv w) {a : World.Act} (hw : w.act tr holdMsFor apart a = some w') :
    Inv w' := by
  cases a with
  | setState state readySeen =>
    simp only [World.act] at hw
    split at hw <;> cases hw
    rename_i hmay
    obtain ⟨hcall, hapart⟩ := Bool.and_eq_true_iff.mp hmay
    exact h.begin (Option.isNone_iff_eq_none.mp hcall) hapart
  | publish =>
    obtain ⟨call, hcall, hw⟩ := Option.bind_eq_some_iff.mp hw
    exact h.publish hcall hw
  | autoHide =>
    obtain ⟨hide, hhide, hw⟩ := Option.bind_eq_some_iff.mp hw
    exact h.autoHide hhide hw
  | tick ms =>
    obtain rfl := Option.some.inj hw
    exact h.others rfl rfl rfl rfl (Nat.le_add_right _ _) rfl rfl
  | lock | levels rms peak | unlock =>
    simp only [World.act] at hw
    split at hw <;> cases hw
    exact h.others rfl rfl rfl rfl (Nat.le_refl _) rfl rfl

theorem Inv.run (h : Inv w) {acts : List World.Act}
    (hrun : w.run tr holdMsFor apart acts = some w') : Inv w' := by
  induction acts generalizing w with
  | nil =>
    obtain rfl := Option.some.inj hrun
    exact h
  | cons a acts ih =>
    obtain ⟨next, hw, hrun⟩ := Option.bind_eq_some_iff.mp hrun
    exact ih (h.act hw) hrun

/-! ## What holds of it -/

theorem Inv.upheld (h : Inv w) : Upheld w := by
  refine ⟨fun returned hreturned hhold => ?_, fun hide hhide => ?_, fun hcall hsleep hcalls => ?_,
    fun call hcall hstage hlast => ?_⟩
  · cases hcall : w.call with
    | some call =>
      obtain ⟨-, hnone, -⟩ := h.called call hcall
      cases hnone.symm.trans hreturned
    | none =>
      cases hhide : w.pendingHide with
      | some hide =>
        obtain ⟨-, -, shown, hok⟩ := h.armed hide hhide
        obtain rfl := Option.some.inj (hok.returned.symm.trans hreturned)
        -- the auto-hide still sleeps
        have hstage : hide.stage = .sleep := by
          by_contra hne
          exact absurd (hok.expired hne) (Nat.not_le_of_lt (hhold hide.due rfl))
        refine hok.uncleared ?_
        rw [AutoHide.cleared, hstage]
      | none =>
        rcases h.rested hcall hhide with ⟨-, -, hnone⟩ | ⟨-, hshown⟩
        · cases hnone.symm.trans hreturned
        · rcases hshown returned hreturned with heq | ⟨due, hdue, hle⟩
          · exact heq.symm
          · exact absurd hle (Nat.not_le_of_lt (hhold due hdue))
  · obtain ⟨hcall, harmed, -⟩ := h.armed hide hhide
    exact ⟨hcall, harmed⟩
  · cases hhide : w.pendingHide with
    | some hide =>
      obtain ⟨-, -, shown, hok⟩ := h.armed hide hhide
      rw [hok.last, hok.bus, AutoHide.showing, hsleep hide hhide]
    | none =>
      rcases h.rested hcall hhide with ⟨hzero, -⟩ | ⟨hlast, -⟩
      · exact absurd hzero (Nat.ne_of_gt hcalls)
      · exact hlast
  · obtain ⟨-, -, hok⟩ := h.called call hcall
    simp only [Call.Ok, hstage] at hok
    exact hok hlast

/-- An auto-hide that has cleared something leaves something else on the bus. -/
theorem AutoHide.Ok.cleared_ne (h : hide.Ok w shown) (hcleared : hide.cleared = true) :
    w.bus.shown ≠ shown := by
  rw [h.bus]
  have hidle : (⟨.idle, ""⟩ : Shown) ≠ shown := by
    rintro rfl
    exact absurd h.transient (by decide)
  intro heq
  unfold AutoHide.cleared at hcleared
  cases hstage : hide.stage with
  | setState =>
    simp only [AutoHide.showing, hstage] at hcleared heq
    have hempty : "" = shown.statusMessage := congrArg Shown.statusMessage heq
    rw [h.message, ← hempty] at hcleared
    exact absurd hcleared (by decide)
  | sleep | check | lockBus | setMessage => simp [hstage] at hcleared
  | _ =>
    simp only [AutoHide.showing, hstage] at heq
    exact hidle heq

theorem Inv.upheld_begin_iff (h : Inv w) (hcall : w.call = none) :
    Upheld (w.begin shown) ↔ apart w shown = true := by
  constructor
  · intro hupheld
    rw [← Bool.not_eq_false]
    intro hoverlaps
    have hcleared : w.last = some shown ∧ w.pendingHide.any AutoHide.cleared = true := by
      simpa [apart] using hoverlaps
    obtain ⟨hlast, hcleared⟩ := hcleared
    cases hhide : w.pendingHide with
    | none =>
      rw [hhide] at hcleared
      cases hcleared
    | some hide =>
      rw [hhide] at hcleared
      obtain ⟨-, -, other, hok⟩ := h.armed hide hhide
      obtain rfl := Option.some.inj (hlast.symm.trans hok.last)
      exact hok.cleared_ne hcleared (hupheld.dropped { shown } rfl rfl hlast)
  · exact fun hapart => (h.begin hcall hapart).upheld

end

/-- **The bus shows the latest state** through every run in which no call repeats what an auto-hide
has just taken off the bus; a call that does is dropped as a duplicate of what is not shown. -/
theorem upheld_of_apart (tr : String → String) (holdMsFor : String → ℕ) (acts : List World.Act)
    (w : World) (hrun : World.run tr holdMsFor apart {} acts = some w) :
    Upheld w ∧ ∀ shown, w.call = none → (Upheld (w.begin shown) ↔ apart w shown = true) :=
  ⟨(inv_init.run hrun).upheld, fun _ hcall => (inv_init.run hrun).upheld_begin_iff hcall⟩

def noSpeech : IndicatorState := .recoverable "No speech detected"

/-- A notice is shown, and its hold expires. -/
def noticeExpires : List World.Act :=
  .setState noSpeech true :: List.replicate 6 .publish ++ [.tick 6000] ++ List.replicate 5 .autoHide

theorem notice_hidden : ∃ w,
    World.run id serverHoldMsFor apart {} (noticeExpires ++ List.replicate 4 .autoHide) = some w ∧
      w.bus.shown = ⟨.idle, ""⟩ ∧ Upheld w := by
  have hbus : (World.run id serverHoldMsFor apart {}
      (noticeExpires ++ List.replicate 4 .autoHide)).map (fun w => w.bus.shown) =
        some ⟨.idle, ""⟩ := by decide +kernel
  obtain ⟨w, hrun, hbus⟩ := Option.map_eq_some_iff.mp hbus
  exact ⟨w, hrun, hbus, (upheld_of_apart id serverHoldMsFor _ w hrun).1⟩

/-- The notice comes again when the auto-hide has just published `idle`: it is dropped as a
duplicate, and does not show at all. -/
theorem notice_missed : ∃ w,
    World.run id serverHoldMsFor (fun _ _ => true) {}
        (noticeExpires ++ [.setState noSpeech true, .publish]) = some w ∧
      w.returned = some ⟨⟨.notice, "No speech detected"⟩, some 12000⟩ ∧ w.now = 6000 ∧
      w.bus.shown = ⟨.idle, ""⟩ ∧ ¬ Upheld w := by
  have hmissed : (World.run id serverHoldMsFor (fun _ _ => true) {}
      (noticeExpires ++ [.setState noSpeech true, .publish])).map
        (fun w => (w.returned, w.now, w.bus.shown)) =
      some (some ⟨⟨.notice, "No speech detected"⟩, some 12000⟩, 6000, ⟨.idle, ""⟩) := by
    decide +kernel
  obtain ⟨w, hrun, heq⟩ := Option.map_eq_some_iff.mp hmissed
  injection heq with hreturned heq
  injection heq with hnow hbus
  refine ⟨w, hrun, hreturned, hnow, hbus, fun hupheld => ?_⟩
  have hstays := hupheld.stays _ hreturned fun due hdue => by
    obtain rfl := Option.some.inj hdue
    rw [hnow]
    decide
  rw [hbus] at hstays
  exact absurd hstays (by decide)

end DbusIndicator

end Desktop

end Myna
