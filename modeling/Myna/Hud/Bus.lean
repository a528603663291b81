import Mathlib.Data.Rat.Defs

/-!
# Myna — the HUD on the bus (`myna_hud::bus`, `dbus_consumer`)

A worker asks whether the publisher's name has an owner and reads its properties once, then leaves
the property signals to a thread of their own and follows the owner itself. Each thread reads a
snapshot and only then queues it; the consumer applies what is queued as it comes.

* **`World.step`** — the publisher, a thread, or the consumer goes on;
* **`hud_follows`** — the HUD follows the publisher while nothing outdated is queued last.
-/

namespace Myna

namespace Hud

namespace Bus

/-! ## The consumer -/

structure Snapshot where
  state : String := ""
  statusMessage : String := ""
  audioRms : ℚ := 0
  audioPeak : ℚ := 0
  hudStyle : String := ""
deriving DecidableEq

def Snapshot.pair (snapshot : Snapshot) : String × String :=
  (snapshot.state, snapshot.statusMessage)

inductive BusEvent
  | nameAppeared (snapshot : Snapshot)
  | nameVanished
  | properties (snapshot : Snapshot)
deriving DecidableEq

def idle : String × String := ("idle", "")

/-- The consumer, enabled. -/
structure DictationService where
  watching : Bool := true
  available : Bool := false
  lastState : Option (String × String) := none
  lastHudStyle : Option String := none

namespace DictationService

/-- What it says is new is passed on; what it keeps is the snapshot's in any case. -/
def reflect (service : DictationService) (snapshot : Snapshot) : DictationService :=
  { service with lastHudStyle := some snapshot.hudStyle, lastState := some snapshot.pair }

def handle (service : DictationService) : BusEvent → DictationService
  | .nameAppeared snapshot =>
    if !service.watching then service
    else { service with available := true }.reflect snapshot
  | .nameVanished =>
    if !service.watching then service
    else { service with available := false, lastState := some idle }
  | .properties snapshot =>
    if !service.watching || !service.available then service
    else service.reflect snapshot

/-- The last state, idle while there has been none. -/
def shown (service : DictationService) : String × String := service.lastState.getD idle

end DictationService

/-! ## The threads -/

/-- What the main thread does next. -/
inductive MainStage
  | nameHasOwner
  | readFirst
  | sendFirst (snapshot : Snapshot)
  | spawn
  | subscribe
  | next
  | readAppeared
  | sendAppeared (snapshot : Snapshot)
  | sendVanished
deriving DecidableEq

def MainStage.subscribed : MainStage → Bool
  | .next | .readAppeared | .sendAppeared _ | .sendVanished => true
  | _ => false

/-- What the thread of the property signals does next. -/
inductive PropsStage
  | unborn
  | subscribe
  | next
  | read
  | send (snapshot : Snapshot)
deriving DecidableEq

def PropsStage.subscribed : PropsStage → Bool
  | .next | .read | .send _ => true
  | _ => false

/-- The publisher (`owned`, and its properties `current`), the signals on their way to the
subscriptions, the threads, what they have queued, and the consumer. -/
structure World where
  owned : Bool := false
  current : Snapshot := {}
  ownerChanges : List Bool := []
  propertyChanges : ℕ := 0
  main : MainStage := .nameHasOwner
  props : PropsStage := .unborn
  queue : List BusEvent := []
  service : DictationService := {}

/-- What happens next. -/
inductive Event
  | gain (snapshot : Snapshot)
  | change (snapshot : Snapshot)
  | lose
  | main
  | props
  | handle
deriving DecidableEq

namespace World

def readSnapshot (w : World) : Option Snapshot := if w.owned then some w.current else none

/-- `NameOwnerChanged` reaches the main thread once that has subscribed. -/
def ownerChanged (w : World) (owned : Bool) : World :=
  { w with
    owned
    ownerChanges := if w.main.subscribed then w.ownerChanges ++ [owned] else w.ownerChanges }

/-- `run`. -/
def stepMain (w : World) : Option World :=
  match w.main with
  | .nameHasOwner => some { w with main := if w.owned then .readFirst else .spawn }
  | .readFirst =>
    some { w with
      main := match w.readSnapshot with
        | some snapshot => .sendFirst snapshot
        | none => .spawn }
  | .sendFirst snapshot =>
    some { w with queue := w.queue ++ [.nameAppeared snapshot], main := .spawn }
  | .spawn => some { w with props := .subscribe, main := .subscribe }
  | .subscribe => some { w with main := .next }
  | .next =>
    match w.ownerChanges with
    | true :: ownerChanges => some { w with ownerChanges, main := .readAppeared }
    | false :: ownerChanges => some { w with ownerChanges, main := .sendVanished }
    | [] => none
  | .readAppeared => some { w with main := .sendAppeared (w.readSnapshot.getD {}) }
  | .sendAppeared snapshot =>
    some { w with queue := w.queue ++ [.nameAppeared snapshot], main := .next }
  | .sendVanished => some { w with queue := w.queue ++ [.nameVanished], main := .next }

/-- The thread that `run` spawns. -/
def stepProps (w : World) : Option World :=
  match w.props with
  | .unborn => none
  | .subscribe => some { w with props := .next }
  | .next =>
    match w.propertyChanges with
    | propertyChanges + 1 => some { w with propertyChanges, props := .read }
    | 0 => none
  | .read =>
    some { w with
      props := match w.readSnapshot with
        | some snapshot => .send snapshot
        | none => .next }
  | .send snapshot => some { w with queue := w.queue ++ [.properties snapshot], props := .next }

def step (w : World) : Event → Option World
  | .gain snapshot =>
    if w.owned then none else some { w.ownerChanged true with current := snapshot }
  | .change snapshot =>
    if w.owned then
      some { w with
        current := snapshot
        propertyChanges :=
          if w.props.subscribed then w.propertyChanges + 1 else w.propertyChanges }
    else none
  | .lose => if w.owned then some (w.ownerChanged false) else none
  | .main => w.stepMain
  | .props => w.stepProps
  | .handle =>
    match w.queue with
    | event :: queue => some { w with queue, service := w.service.handle event }
    | [] => none

/-- A run, each of whose steps is one that `may` allows. -/
def run (may : World → Event → Bool) (w : World) (events : List Event) : Option World :=
  events.foldlM (fun w e => if may w e then w.step e else none) w

/-- Every signal and everything that was queued has been handled. -/
def Quiescent (w : World) : Prop :=
  w.main = .next ∧ w.ownerChanges = [] ∧ w.props = .next ∧ w.propertyChanges = 0 ∧ w.queue = []

/-- The consumer once it has handled what is queued. -/
def view (w : World) : DictationService := w.queue.foldl DictationService.handle w.service

end World

/-- The HUD follows the publisher. -/
structure Follows (w : World) : Prop where
  available : w.service.available = w.owned
  shown : w.service.shown = if w.owned then w.current.pair else idle

/-! ## What the threads owe to the consumer -/

/-- The main thread is to queue the state `pair`, or what it has yet to read. -/
def MainStage.reports (pair : String × String) : MainStage → Bool
  | .readAppeared => true
  | .sendAppeared snapshot => snapshot.pair = pair
  | _ => false

def PropsStage.reports (pair : String × String) : PropsStage → Bool
  | .read => true
  | .send snapshot => snapshot.pair = pair
  | _ => false

namespace World

/-- The name has an owner, and both threads have subscribed. -/
def followed (w : World) : Bool := w.owned && w.main.subscribed && w.props.subscribed

/-- A signal has not been taken. -/
def pends (w : World) : Bool := w.ownerChanges ≠ [] || w.propertyChanges ≠ 0

/-- The publisher's state is what was queued last, or is to be queued, or to be read. -/
def reports (w : World) : Bool :=
  w.view.shown = w.current.pair || w.pends || w.main.reports w.current.pair ||
    w.props.reports w.current.pair

end World

/-- Where a subscription is made, the consumer has been told of an owner exactly if the name has
one, and the owner's state is reported; and the owner's state is reported still once a thread has
queued what it read. -/
def meets (w : World) (e : Event) : Bool :=
  match e with
  | .main =>
    match w.main with
    | .subscribe =>
      w.view.available = w.owned && (!w.owned || !w.props.subscribed || w.reports)
    | .sendAppeared snapshot =>
      !w.followed || snapshot.pair = w.current.pair || w.pends ||
        w.props.reports w.current.pair
    | _ => true
  | .props =>
    match w.props with
    | .subscribe => !w.owned || !w.main.subscribed || w.reports
    | .send snapshot =>
      !w.followed || (w.view.handle (.properties snapshot)).shown = w.current.pair || w.pends ||
        w.main.reports w.current.pair
    | _ => true
  | _ => true

def Event.isPublisher : Event → Bool
  | .gain _ | .change _ | .lose => true
  | _ => false

/-! ## The invariant -/

namespace World

/-- Whether the consumer has the name owned once the main thread has gone through its signals. -/
def reportsOwned (w : World) : Bool :=
  match w.ownerChanges.getLast? with
  | some owned => owned
  | none =>
    match w.main with
    | .readAppeared | .sendAppeared _ => true
    | .sendVanished => false
    | _ => w.view.available

end World

variable {w w' : World} {e : Event} {event : BusEvent} {service : DictationService}

/-- A consumer that has no publisher shows idle. -/
structure ServiceInv (service : DictationService) : Prop where
  watching : service.watching = true
  idle : service.available = false → service.shown = idle

theorem handle_available (hwatching : service.watching = true) (event : BusEvent) :
    (service.handle event).available = match event with
      | .nameAppeared _ => true
      | .nameVanished => false
      | .properties _ => service.available := by
  cases event with
  | nameAppeared snapshot => simp [DictationService.handle, hwatching, DictationService.reflect]
  | nameVanished => simp [DictationService.handle, hwatching]
  | properties snapshot =>
    cases havailable : service.available <;>
      simp [DictationService.handle, hwatching, havailable, DictationService.reflect]

theorem ServiceInv.handle (h : ServiceInv service) (event : BusEvent) :
    ServiceInv (service.handle event) := by
  obtain ⟨hwatching, hidle⟩ := h
  refine ⟨?_, fun hnone => ?_⟩
  · unfold DictationService.handle
    cases event <;> dsimp only <;> split <;> exact hwatching
  · rw [handle_available hwatching] at hnone
    cases event with
    | nameAppeared snapshot => cases hnone
    | nameVanished => simp [DictationService.handle, hwatching, DictationService.shown]
    | properties snapshot =>
      have hkept : service.handle (.properties snapshot) = service := by
        simp [DictationService.handle, hnone]
      rw [hkept]
      exact hidle hnone

theorem ServiceInv.foldl (h : ServiceInv service) (queue : List BusEvent) :
    ServiceInv (queue.foldl DictationService.handle service) := by
  induction queue generalizing service with
  | nil => exact h
  | cons event queue ih => exact ih (h.handle event)

theorem foldl_push (queue : List BusEvent) (event : BusEvent) (service : DictationService) :
    (queue ++ [event]).foldl DictationService.handle service
      = (queue.foldl DictationService.handle service).handle event := by
  rw [List.foldl_append]
  rfl

/-- What holds of every run. -/
structure Basic (w : World) : Prop where
  service : ServiceInv w.service
  unheard : w.main.subscribed = false → w.ownerChanges = []
  silent : w.props.subscribed = false → w.propertyChanges = 0
  unborn : w.main.subscribed = false → w.main ≠ .subscribe → w.props = .unborn

theorem Basic.view (h : Basic w) : ServiceInv w.view := h.service.foldl w.queue

/-- What holds of a run whose steps meet the condition. -/
structure Inv (w : World) : Prop extends Basic w where
  owned : w.main.subscribed → w.reportsOwned = w.owned
  state : w.followed → w.reports

theorem inv_init : Inv {} :=
  ⟨⟨⟨rfl, fun _ => rfl⟩, fun _ => rfl, fun _ => rfl, fun _ _ => rfl⟩, nofun, nofun⟩

theorem Inv.follows (h : Inv w) (hquiescent : w.Quiescent) : Follows w := by
  obtain ⟨hmain, howner, hprops, hchanges, hqueue⟩ := hquiescent
  have hview : w.view = w.service := by rw [World.view, hqueue]; rfl
  have havailable : w.service.available = w.owned := by
    have := h.owned (by rw [hmain]; rfl)
    simpa [World.reportsOwned, howner, hmain, hview] using this
  refine ⟨havailable, ?_⟩
  cases howned : w.owned with
  | false => exact h.service.idle (havailable.trans howned)
  | true =>
    have hreports := h.state (by simp [World.followed, howned, hmain, hprops,
      MainStage.subscribed, PropsStage.subscribed])
    simpa [World.reports, World.pends, hview, howner, hmain, hprops, hchanges,
      MainStage.reports, PropsStage.reports] using hreports

/-! ## The steps -/

theorem reports_iff : w.reports = true ↔
    w.view.shown = w.current.pair ∨ w.pends = true ∨ w.main.reports w.current.pair = true ∨
      w.props.reports w.current.pair = true := by
  simp [World.reports, or_assoc]

theorem pends_iff : w.pends = true ↔ w.ownerChanges ≠ [] ∨ w.propertyChanges ≠ 0 := by
  simp [World.pends]

theorem followed_iff : w.followed = true ↔
    w.owned = true ∧ w.main.subscribed = true ∧ w.props.subscribed = true := by
  simp [World.followed, and_assoc]

namespace Basic

/-- The owner changes. -/
theorem ownerChanged (h : Basic w) (owned : Bool) (current : Snapshot) :
    Basic { w.ownerChanged owned with current } := by
  refine ⟨h.service, fun hunheard => ?_, h.silent, h.unborn⟩
  have hunheard : w.main.subscribed = false := hunheard
  simp [World.ownerChanged, hunheard, h.unheard hunheard]

theorem change (h : Basic w) (snapshot : Snapshot) :
    Basic { w with
      current := snapshot
      propertyChanges :=
        if w.props.subscribed then w.propertyChanges + 1 else w.propertyChanges } := by
  refine ⟨h.service, h.unheard, fun hsilent => ?_, h.unborn⟩
  have hsilent : w.props.subscribed = false := hsilent
  simp [hsilent, h.silent hsilent]

theorem main (h : Basic w) (hw : w.stepMain = some w') : Basic w' := by
  unfold World.stepMain at hw
  split at hw
  case h_6 hmain =>
    -- it takes a change of the owner
    split at hw <;> cases hw <;> exact ⟨h.service, nofun, h.silent, nofun⟩
  case h_5 | h_7 | h_8 | h_9 =>
    cases hw
    exact ⟨h.service, nofun, h.silent, nofun⟩
  case h_4 hmain =>
    cases hw
    have hunborn := h.unborn (by rw [hmain]; rfl) (by rw [hmain]; nofun)
    refine ⟨h.service, fun _ => h.unheard (by rw [hmain]; rfl), fun _ => ?_, nofun⟩
    exact h.silent (by rw [hunborn]; rfl)
  all_goals
    rename_i hmain
    cases hw
    have hunheard := h.unheard (by rw [hmain]; rfl)
    have hunborn := h.unborn (by rw [hmain]; rfl) (by rw [hmain]; nofun)
    exact ⟨h.service, fun _ => hunheard, h.silent, fun _ _ => hunborn⟩

theorem props (h : Basic w) (hw : w.stepProps = some w') : Basic w' := by
  have hborn : w.props ≠ .unborn → w.main.subscribed = false → w.main ≠ .subscribe → False :=
    fun hne hunheard hmain => hne (h.unborn hunheard hmain)
  unfold World.stepProps at hw
  split at hw
  case h_1 => cases hw
  case h_3 hprops =>
    split at hw <;> cases hw
    exact ⟨h.service, h.unheard, nofun, fun hm hn => (hborn (by rw [hprops]; nofun) hm hn).elim⟩
  case h_4 hprops =>
    cases hw
    refine ⟨h.service, h.unheard, fun hsilent => ?_,
      fun hm hn => (hborn (by rw [hprops]; nofun) hm hn).elim⟩
    dsimp only at hsilent
    split at hsilent <;> cases hsilent
  case h_2 hprops | h_5 hprops =>
    cases hw
    exact ⟨h.service, h.unheard, nofun, fun hm hn => (hborn (by rw [hprops]; nofun) hm hn).elim⟩

theorem handle (h : Basic w) {event : BusEvent} {queue : List BusEvent} :
    Basic { w with queue, service := w.service.handle event } :=
  ⟨h.service.handle event, h.unheard, h.silent, h.unborn⟩

end Basic

theorem reportsOwned_nil (hchanges : w.ownerChanges = []) :
    w.reportsOwned = match w.main with
      | .readAppeared | .sendAppeared _ => true
      | .sendVanished => false
      | _ => w.view.available := by
  rw [World.reportsOwned, hchanges]
  rfl

theorem reportsOwned_ne {w' : World} (hchanges : w.ownerChanges ≠ [])
    (hlast : w'.ownerChanges.getLast? = w.ownerChanges.getLast?) :
    w'.reportsOwned = w.reportsOwned := by
  obtain ⟨owned, howned⟩ := Option.isSome_iff_exists.mp (List.getLast?_isSome.mpr hchanges)
  rw [World.reportsOwned, World.reportsOwned, hlast, howned]

theorem view_push (w : World) (event : BusEvent) (main : MainStage) (props : PropsStage) :
    World.view { w with queue := w.queue ++ [event], main, props } = w.view.handle event :=
  foldl_push w.queue event w.service

namespace Inv

theorem ownerChanged (h : Inv w) (owned : Bool) (current : Snapshot) :
    Inv { w.ownerChanged owned with current } := by
  refine ⟨h.toBasic.ownerChanged owned current, fun hheard => ?_, fun hfollowed => ?_⟩
  · have hheard : w.main.subscribed = true := hheard
    simp [World.reportsOwned, World.ownerChanged, hheard]
  · have hheard : w.main.subscribed = true := (followed_iff.mp hfollowed).2.1
    refine reports_iff.mpr (.inr (.inl (pends_iff.mpr (.inl ?_))))
    simp [World.ownerChanged, hheard]

theorem change (h : Inv w) (snapshot : Snapshot) :
    Inv { w with
      current := snapshot
      propertyChanges :=
        if w.props.subscribed then w.propertyChanges + 1 else w.propertyChanges } := by
  refine ⟨h.toBasic.change snapshot, h.owned, fun hfollowed => ?_⟩
  have hprops : w.props.subscribed = true := (followed_iff.mp hfollowed).2.2
  refine reports_iff.mpr (.inr (.inl (pends_iff.mpr (.inr ?_))))
  simp [hprops]

/-- The main thread subscribes. -/
theorem subscribe (h : Inv w) (hmain : w.main = .subscribe)
    (hmeets : meets w .main = true) : Inv { w with main := .next } := by
  have hnone : w.ownerChanges = [] := h.unheard (by rw [hmain]; rfl)
  simp only [meets, hmain, Bool.and_eq_true, Bool.or_eq_true, decide_eq_true_eq,
    Bool.not_eq_true'] at hmeets
  refine ⟨⟨h.service, nofun, h.silent, nofun⟩, fun _ => ?_, fun hfollowed => ?_⟩
  · exact (reportsOwned_nil (by exact hnone)).trans hmeets.1
  · obtain ⟨howned, -, hprops⟩ := followed_iff.mp hfollowed
    have hreports : w.reports = true := by
      rcases hmeets.2 with (hnot | hnot) | hreports
      · exact absurd howned (by simp [hnot])
      · exact absurd hprops (by simp [hnot])
      · exact hreports
    rw [reports_iff] at hreports ⊢
    rw [hmain] at hreports
    exact hreports

/-- The main thread takes a change of the owner. -/
theorem take (h : Inv w) (hmain : w.main = .next) {owned : Bool} {ownerChanges : List Bool}
    (hchanges : w.ownerChanges = owned :: ownerChanges) :
    Inv { w with
      ownerChanges
      main := if owned then .readAppeared else .sendVanished } := by
  have howned := h.owned (by rw [hmain]; rfl)
  have hne : w.ownerChanges ≠ [] := by simp [hchanges]
  have hrest : ownerChanges = [] → owned = w.owned := by
    rintro rfl
    rw [← howned, World.reportsOwned, hchanges]
    rfl
  have hheard : (if owned then MainStage.readAppeared else .sendVanished).subscribed := by
    cases owned <;> rfl
  refine ⟨⟨h.service, fun hunheard => absurd hheard (by simp [hunheard]), h.silent,
    fun hunheard => absurd hheard (by simp [hunheard])⟩, fun _ => ?_, fun hfollowed => ?_⟩
  · cases hlast : ownerChanges with
    | nil =>
      rw [reportsOwned_nil rfl]
      show _ = w.owned
      rw [← hrest hlast]
      cases owned <;> rfl
    | cons next rest =>
      rw [← howned]
      refine reportsOwned_ne hne ?_
      show (next :: rest).getLast? = w.ownerChanges.getLast?
      rw [hchanges, hlast, List.getLast?_cons_cons]
  · have hname : w.owned = true := (followed_iff.mp hfollowed).1
    refine reports_iff.mpr (.inr ?_)
    cases hlast : ownerChanges with
    | nil =>
      refine .inr (.inl ?_)
      rw [hrest hlast, hname]
      rfl
    | cons next rest => exact .inl (pends_iff.mpr (.inl (List.cons_ne_nil next rest)))

/-- The main thread reads for a new owner. -/
theorem readAppeared (h : Inv w) (hmain : w.main = .readAppeared) :
    Inv { w with main := .sendAppeared (w.readSnapshot.getD {}) } := by
  have howned := h.owned (by rw [hmain]; rfl)
  refine ⟨⟨h.service, nofun, h.silent, nofun⟩, fun _ => ?_, fun hfollowed => ?_⟩
  · refine Eq.trans ?_ howned
    by_cases hchanges : w.ownerChanges = []
    · refine (reportsOwned_nil (by exact hchanges)).trans ?_
      rw [reportsOwned_nil hchanges, hmain]
    · exact reportsOwned_ne hchanges rfl
  · have hname : w.owned = true := (followed_iff.mp hfollowed).1
    refine reports_iff.mpr (.inr (.inr (.inl ?_)))
    simp [World.readSnapshot, hname, MainStage.reports]

/-- The main thread queues what it holds. -/
theorem sendAppeared (h : Inv w) {snapshot : Snapshot} (hmain : w.main = .sendAppeared snapshot)
    (hmeets : meets w .main = true) :
    Inv { w with queue := w.queue ++ [.nameAppeared snapshot], main := .next } := by
  have howned := h.owned (by rw [hmain]; rfl)
  have hwatching := h.view.watching
  have hview := view_push w (.nameAppeared snapshot) .next w.props
  have hshown : (w.view.handle (.nameAppeared snapshot)).shown = snapshot.pair := by
    simp [DictationService.handle, hwatching, DictationService.reflect, DictationService.shown]
  refine ⟨⟨h.service, nofun, h.silent, nofun⟩, fun _ => ?_, fun hfollowed => ?_⟩
  · refine Eq.trans ?_ howned
    by_cases hchanges : w.ownerChanges = []
    · refine (reportsOwned_nil (by exact hchanges)).trans ?_
      rw [reportsOwned_nil hchanges, hmain]
      exact (congrArg _ hview).trans (handle_available hwatching _)
    · exact reportsOwned_ne hchanges rfl
  · obtain ⟨hname, -, hprops⟩ := followed_iff.mp hfollowed
    have hfollows : w.followed = true := followed_iff.mpr ⟨hname, by rw [hmain]; rfl, hprops⟩
    simp only [meets, hmain, hfollows, Bool.not_true, Bool.false_or, Bool.or_eq_true,
      decide_eq_true_eq] at hmeets
    refine reports_iff.mpr ?_
    rw [hview, hshown]
    rcases hmeets with (hpair | hpends) | hreports
    · exact .inl hpair
    · exact .inr (.inl hpends)
    · exact .inr (.inr (.inr hreports))

theorem sendVanished (h : Inv w) (hmain : w.main = .sendVanished) :
    Inv { w with queue := w.queue ++ [.nameVanished], main := .next } := by
  have howned := h.owned (by rw [hmain]; rfl)
  have hwatching := h.view.watching
  have hview := view_push w .nameVanished .next w.props
  refine ⟨⟨h.service, nofun, h.silent, nofun⟩, fun _ => ?_, fun hfollowed => ?_⟩
  · refine Eq.trans ?_ howned
    by_cases hchanges : w.ownerChanges = []
    · refine (reportsOwned_nil (by exact hchanges)).trans ?_
      rw [reportsOwned_nil hchanges, hmain]
      exact (congrArg _ hview).trans (handle_available hwatching _)
    · exact reportsOwned_ne hchanges rfl
  · -- the name has an owner again, so that a change is still to be taken
    obtain ⟨hname, -, -⟩ := followed_iff.mp hfollowed
    have hname : w.owned = true := hname
    refine reports_iff.mpr (.inr (.inl (pends_iff.mpr (.inl fun hchanges => ?_))))
    rw [reportsOwned_nil (by exact hchanges), hmain, hname] at howned
    cases howned

/-- Before it has subscribed, the main thread owes nothing. -/
theorem starting (h : Inv w) (hw : w.stepMain = some w') (hmain : w'.main.subscribed = false) :
    Inv w' := by
  refine ⟨h.toBasic.main hw, fun hheard => ?_, fun hfollowed => ?_⟩
  · cases hmain.symm.trans hheard
  · cases hmain.symm.trans (followed_iff.mp hfollowed).2.1

theorem main (h : Inv w) (hmeets : meets w .main = true) (hw : w.stepMain = some w') :
    Inv w' := by
  have hstep := hw
  unfold World.stepMain at hw
  split at hw
  case h_5 hmain =>
    cases hw
    exact h.subscribe hmain hmeets
  case h_6 hmain =>
    split at hw <;> cases hw
    · rename_i hchanges
      exact h.take hmain hchanges
    · rename_i hchanges
      exact h.take hmain hchanges
  case h_7 hmain =>
    cases hw
    exact h.readAppeared hmain
  case h_8 hmain =>
    cases hw
    exact h.sendAppeared hmain hmeets
  case h_9 hmain =>
    cases hw
    exact h.sendVanished hmain
  case h_1 | h_2 =>
    refine h.starting hstep ?_
    cases hw
    dsimp only
    split <;> rfl
  case h_3 | h_4 =>
    refine h.starting hstep ?_
    cases hw
    rfl

/-- The thread of the property signals goes on, and keeps what the main thread reports. -/
theorem ofProps (h : Inv w) (hw : w.stepProps = some w') (hmain : w'.main = w.main)
    (hchanges : w'.ownerChanges = w.ownerChanges) (hname : w'.owned = w.owned)
    (hview : w'.view.available = w.view.available) (hstate : w'.followed → w'.reports) :
    Inv w' := by
  refine ⟨h.toBasic.props hw, fun hheard => ?_, hstate⟩
  rw [World.reportsOwned, hchanges, hmain, hview, hname]
  exact h.owned (hmain ▸ hheard)

theorem props (h : Inv w) (hmeets : meets w .props = true) (hw : w.stepProps = some w') :
    Inv w' := by
  have hstep := hw
  unfold World.stepProps at hw
  split at hw
  case h_1 => cases hw
  case h_2 hprops =>
    cases hw
    refine h.ofProps hstep rfl rfl rfl rfl fun hfollowed => ?_
    obtain ⟨howned, hmain, -⟩ := followed_iff.mp hfollowed
    have howned : w.owned = true := howned
    have hmain : w.main.subscribed = true := hmain
    have hreports : w.reports = true := by simpa [meets, hprops, howned, hmain] using hmeets
    rw [reports_iff] at hreports ⊢
    rw [hprops] at hreports
    exact hreports
  case h_3 hprops =>
    split at hw <;> cases hw
    refine h.ofProps hstep rfl rfl rfl rfl fun _ => ?_
    exact reports_iff.mpr (.inr (.inr (.inr rfl)))
  case h_4 hprops =>
    cases hw
    refine h.ofProps hstep rfl rfl rfl rfl fun hfollowed => ?_
    have howned : w.owned = true := (followed_iff.mp hfollowed).1
    refine reports_iff.mpr (.inr (.inr (.inr ?_)))
    simp [World.readSnapshot, howned, PropsStage.reports]
  case h_5 snapshot hprops =>
    cases hw
    have hwatching := h.view.watching
    have hview := view_push w (.properties snapshot) w.main .next
    refine h.ofProps hstep rfl rfl rfl ?_ fun hfollowed => ?_
    · rw [hview]
      exact handle_available hwatching _
    · obtain ⟨howned, hmain, -⟩ := followed_iff.mp hfollowed
      have hfollows : w.followed = true :=
        followed_iff.mpr ⟨howned, hmain, by rw [hprops]; rfl⟩
      simp only [meets, hprops, hfollows, Bool.not_true, Bool.false_or, Bool.or_eq_true,
        decide_eq_true_eq] at hmeets
      refine reports_iff.mpr ?_
      rw [hview]
      rcases hmeets with (hpair | hpends) | hreports
      · exact .inl hpair
      · exact .inr (.inl hpends)
      · exact .inr (.inr (.inl hreports))

theorem handle (h : Inv w) {event : BusEvent} {queue : List BusEvent}
    (hqueue : w.queue = event :: queue) :
    Inv { w with queue, service := w.service.handle event } := by
  have hview : World.view { w with queue, service := w.service.handle event } = w.view := by
    rw [World.view, World.view, hqueue]
    rfl
  refine ⟨h.toBasic.handle, fun hheard => ?_, fun hfollowed => ?_⟩
  · have howned := h.owned hheard
    unfold World.reportsOwned at howned ⊢
    rw [hview]
    exact howned
  · have hreports := h.state hfollowed
    rw [reports_iff] at hreports ⊢
    rw [hview]
    exact hreports

theorem step (h : Inv w) (hmeets : meets w e = true) (hw : w.step e = some w') : Inv w' := by
  cases e with
  | gain snapshot =>
    simp only [World.step] at hw
    split at hw <;> cases hw
    exact h.ownerChanged true snapshot
  | change snapshot =>
    simp only [World.step] at hw
    split at hw <;> cases hw
    exact h.change snapshot
  | lose =>
    simp only [World.step] at hw
    split at hw <;> cases hw
    exact h.ownerChanged false w.current
  | main => exact h.main hmeets hw
  | props => exact h.props hmeets hw
  | handle =>
    simp only [World.step] at hw
    split at hw <;> cases hw
    rename_i hqueue
    exact h.handle hqueue

theorem run (h : Inv w) {events : List Event} (hrun : w.run meets events = some w') : Inv w' := by
  induction events generalizing w with
  | nil =>
    obtain rfl := Option.some.inj hrun
    exact h
  | cons e events ih =>
    obtain ⟨next, hnext, hrun⟩ := Option.bind_eq_some_iff.mp hrun
    dsimp only at hnext
    split at hnext
    · rename_i hmeets
      exact ih (h.step hmeets hnext) hrun
    · cases hnext

end Inv

/-! ## Where a step does not meet the condition -/

/-- The consumer is wrong about the owner, and nothing is to tell it. -/
structure LosesOwner (w : World) : Prop extends Basic w where
  main : w.main = .next
  ownerChanges : w.ownerChanges = []
  available : w.view.available ≠ w.owned

/-- The publisher's state is not what was queued last, and nothing is to read it. -/
structure LosesState (w : World) : Prop extends Basic w where
  followed : w.followed = true
  reports : w.reports = false
  main : w.main ≠ .sendVanished

theorem Basic.step (h : Basic w) (hquiet : e.isPublisher = false) (hw : w.step e = some w') :
    Basic w' := by
  cases e with
  | gain snapshot | change snapshot | lose => cases hquiet
  | main => exact h.main hw
  | props => exact h.props hw
  | handle =>
    simp only [World.step] at hw
    split at hw <;> cases hw
    exact h.handle

theorem view_handle {queue : List BusEvent} (hqueue : w.queue = event :: queue) :
    World.view { w with queue, service := w.service.handle event } = w.view := by
  rw [World.view, World.view, hqueue]
  rfl

theorem LosesOwner.step (h : LosesOwner w) (hquiet : e.isPublisher = false)
    (hw : w.step e = some w') : LosesOwner w' := by
  have hbasic := h.toBasic.step hquiet hw
  cases e with
  | gain snapshot | change snapshot | lose => cases hquiet
  | main =>
    simp only [World.step, World.stepMain, h.main, h.ownerChanges] at hw
    cases hw
  | props =>
    simp only [World.step, World.stepProps] at hw
    split at hw
    case h_1 => cases hw
    case h_3 =>
      split at hw <;> cases hw
      exact ⟨hbasic, h.main, h.ownerChanges, h.available⟩
    case h_2 | h_4 =>
      cases hw
      exact ⟨hbasic, h.main, h.ownerChanges, h.available⟩
    case h_5 snapshot _ =>
      cases hw
      refine ⟨hbasic, h.main, h.ownerChanges, ?_⟩
      rw [view_push w (.properties snapshot) w.main .next,
        handle_available h.view.watching]
      exact h.available
  | handle =>
    simp only [World.step] at hw
    split at hw <;> cases hw
    rename_i hqueue
    refine ⟨hbasic, h.main, h.ownerChanges, ?_⟩
    rw [view_handle hqueue]
    exact h.available

theorem reports_eq_false_iff : w.reports = false ↔
    w.view.shown ≠ w.current.pair ∧ (w.ownerChanges = [] ∧ w.propertyChanges = 0) ∧
      w.main.reports w.current.pair = false ∧ w.props.reports w.current.pair = false := by
  rw [← Bool.not_eq_true, reports_iff, pends_iff]
  simp only [not_or, not_not, Bool.not_eq_true, ne_eq]

/-- What was read before the publisher's last change does not tell of it. -/
theorem handle_properties_shown {snapshot : Snapshot} {pair : String × String}
    (hview : service.shown ≠ pair) (hstale : snapshot.pair ≠ pair) :
    (service.handle (.properties snapshot)).shown ≠ pair := by
  unfold DictationService.handle
  dsimp only
  split
  · exact hview
  · exact hstale

theorem LosesState.step (h : LosesState w) (hquiet : e.isPublisher = false)
    (hw : w.step e = some w') : LosesState w' := by
  have hbasic := h.toBasic.step hquiet hw
  obtain ⟨howned, hmainSub, hpropsSub⟩ := followed_iff.mp h.followed
  obtain ⟨hview, ⟨howner, hchanges⟩, hmain, hprops⟩ := reports_eq_false_iff.mp h.reports
  cases e with
  | gain snapshot | change snapshot | lose => cases hquiet
  | main =>
    cases hstage : w.main with
    | sendAppeared snapshot =>
      simp only [World.step, World.stepMain, hstage, Option.some.injEq] at hw
      subst hw
      have hstale : snapshot.pair ≠ w.current.pair := by simpa [hstage,
        MainStage.reports] using hmain
      refine ⟨hbasic, followed_iff.mpr ⟨howned, rfl, hpropsSub⟩, reports_eq_false_iff.mpr ?_, nofun⟩
      refine ⟨?_, ⟨howner, hchanges⟩, rfl, hprops⟩
      rw [view_push w (.nameAppeared snapshot) .next w.props]
      unfold DictationService.handle
      rw [h.view.watching]
      exact hstale
    | next =>
      simp only [World.step, World.stepMain, hstage, howner] at hw
      cases hw
    | sendVanished => exact absurd hstage h.main
    | readAppeared => simp [hstage, MainStage.reports] at hmain
    | _ => simp [hstage, MainStage.subscribed] at hmainSub
  | props =>
    cases hstage : w.props with
    | send snapshot =>
      simp only [World.step, World.stepProps, hstage, Option.some.injEq] at hw
      subst hw
      have hstale : snapshot.pair ≠ w.current.pair := by
        simpa [hstage, PropsStage.reports] using hprops
      refine ⟨hbasic, followed_iff.mpr ⟨howned, hmainSub, rfl⟩, reports_eq_false_iff.mpr ?_, h.main⟩
      refine ⟨?_, ⟨howner, hchanges⟩, hmain, rfl⟩
      rw [view_push w (.properties snapshot) w.main .next]
      exact handle_properties_shown hview hstale
    | next =>
      simp only [World.step, World.stepProps, hstage, hchanges] at hw
      cases hw
    | read => simp [hstage, PropsStage.reports] at hprops
    | _ => simp [hstage, PropsStage.subscribed] at hpropsSub
  | handle =>
    simp only [World.step] at hw
    split at hw <;> cases hw
    rename_i hqueue
    refine ⟨hbasic, h.followed, reports_eq_false_iff.mpr ?_, h.main⟩
    rw [view_handle hqueue]
    exact ⟨hview, ⟨howner, hchanges⟩, hmain, hprops⟩

/-- A main thread that is to queue a vanishing of an owned name has signals to take. -/
theorem Inv.ne_sendVanished (h : Inv w) (howned : w.owned = true) (howner : w.ownerChanges = []) :
    w.main ≠ .sendVanished := by
  intro hmain
  have hreports := h.owned (by rw [hmain]; rfl)
  rw [reportsOwned_nil howner, hmain, howned] at hreports
  cases hreports

/-- What a step that does not meet the condition loses. -/
theorem Inv.loses (h : Inv w) (hmeets : meets w e = false) (hw : w.step e = some w') :
    LosesOwner w' ∨ LosesState w' := by
  cases e with
  | gain snapshot | change snapshot | lose | handle => cases hmeets
  | main =>
    have hbasic := h.toBasic.main hw
    cases hmain : w.main with
    | subscribe =>
      have hnone := h.unheard (by rw [hmain]; rfl)
      simp only [World.step, World.stepMain, hmain, Option.some.injEq] at hw
      subst hw
      by_cases havailable : w.view.available = w.owned
      · have hmissed : (w.owned = true ∧ w.props.subscribed = true) ∧ w.reports = false := by
          simpa [meets, hmain, havailable] using hmeets
        obtain ⟨⟨howned, hprops⟩, hreports⟩ := hmissed
        refine .inr ⟨hbasic, followed_iff.mpr ⟨howned, rfl, hprops⟩, ?_, nofun⟩
        obtain ⟨hview, hpends, -, hread⟩ := reports_eq_false_iff.mp hreports
        exact reports_eq_false_iff.mpr ⟨hview, hpends, rfl, hread⟩
      · exact .inl ⟨hbasic, rfl, hnone, havailable⟩
    | sendAppeared snapshot =>
      simp only [World.step, World.stepMain, hmain, Option.some.injEq] at hw
      subst hw
      simp only [meets, hmain, Bool.or_eq_false_iff, Bool.not_eq_eq_eq_not, Bool.not_false,
        decide_eq_false_iff_not] at hmeets
      obtain ⟨⟨⟨hfollowed, hstale⟩, hpends⟩, hprops⟩ := hmeets
      obtain ⟨howned, -, hsubscribed⟩ := followed_iff.mp hfollowed
      rw [← Bool.not_eq_true, pends_iff, not_or, not_not, not_not] at hpends
      refine .inr ⟨hbasic, followed_iff.mpr ⟨howned, rfl, hsubscribed⟩,
        reports_eq_false_iff.mpr ⟨?_, hpends, rfl, hprops⟩, nofun⟩
      rw [view_push w (.nameAppeared snapshot) .next w.props]
      unfold DictationService.handle
      rw [h.view.watching]
      exact hstale
    | _ => simp [meets, hmain] at hmeets
  | props =>
    have hbasic := h.toBasic.props hw
    cases hprops : w.props with
    | subscribe =>
      simp only [World.step, World.stepProps, hprops, Option.some.injEq] at hw
      subst hw
      simp only [meets, hprops, Bool.or_eq_false_iff, Bool.not_eq_eq_eq_not, Bool.not_false]
        at hmeets
      obtain ⟨⟨howned, hmain⟩, hreports⟩ := hmeets
      obtain ⟨hview, hpends, hread, -⟩ := reports_eq_false_iff.mp hreports
      exact .inr ⟨hbasic, followed_iff.mpr ⟨howned, hmain, rfl⟩,
        reports_eq_false_iff.mpr ⟨hview, hpends, hread, rfl⟩, h.ne_sendVanished howned hpends.1⟩
    | send snapshot =>
      simp only [World.step, World.stepProps, hprops, Option.some.injEq] at hw
      subst hw
      simp only [meets, hprops, Bool.or_eq_false_iff, Bool.not_eq_eq_eq_not, Bool.not_false,
        decide_eq_false_iff_not] at hmeets
      obtain ⟨⟨⟨hfollowed, hstale⟩, hpends⟩, hmain⟩ := hmeets
      obtain ⟨howned, hsubscribed, -⟩ := followed_iff.mp hfollowed
      rw [← Bool.not_eq_true, pends_iff, not_or, not_not, not_not] at hpends
      refine .inr ⟨hbasic, followed_iff.mpr ⟨howned, hsubscribed, rfl⟩,
        reports_eq_false_iff.mpr ⟨?_, hpends, hmain, rfl⟩, h.ne_sendVanished howned hpends.1⟩
      rw [view_push w (.properties snapshot) w.main .next]
      exact hstale
    | _ => simp [meets, hprops] at hmeets

theorem loses_run (h : LosesOwner w ∨ LosesState w) {events : List Event}
    (hquiet : ∀ e ∈ events, e.isPublisher = false)
    (hrun : w.run (fun _ _ => true) events = some w') : LosesOwner w' ∨ LosesState w' := by
  induction events generalizing w with
  | nil =>
    obtain rfl := Option.some.inj hrun
    exact h
  | cons e events ih =>
    obtain ⟨next, hnext, hrun⟩ := Option.bind_eq_some_iff.mp hrun
    have hfirst := hquiet e (List.mem_cons_self ..)
    refine ih ?_ (fun e he => hquiet e (List.mem_cons_of_mem _ he)) hrun
    exact h.imp (·.step hfirst hnext) (·.step hfirst hnext)

theorem not_follows (h : LosesOwner w ∨ LosesState w) (hquiescent : w.Quiescent) :
    ¬Follows w := by
  intro hfollows
  have hview : w.view = w.service := by rw [World.view, hquiescent.2.2.2.2]; rfl
  rcases h with h | h
  · exact h.available (hview ▸ hfollows.available)
  · obtain ⟨howned, -⟩ := followed_iff.mp h.followed
    have hshown := hfollows.shown
    rw [howned, if_pos rfl, ← hview] at hshown
    exact (reports_eq_false_iff.mp h.reports).1 hshown

/-- **The HUD follows the publisher**, through every run whose steps meet the condition; and one
that does not leaves it wrong, unless the publisher changes once more. -/
theorem hud_follows {events : List Event} (hrun : World.run meets {} events = some w) :
    (w.Quiescent → Follows w) ∧
      ∀ e w', w.step e = some w' → meets w e = false →
        ∀ later w'', (∀ e ∈ later, e.isPublisher = false) →
          w'.run (fun _ _ => true) later = some w'' → w''.Quiescent → ¬Follows w'' := by
  have h : Inv w := inv_init.run hrun
  refine ⟨h.follows, fun e w' hw hmeets later w'' hquiet hrun hquiescent => ?_⟩
  exact not_follows (loses_run (h.loses hmeets hw) hquiet hrun) hquiescent

/-- The publisher comes once the worker follows it, and its state is shown. -/
theorem recording_followed :
    ∃ w, World.run meets {}
        [.main, .main, .main, .props, .gain { state := "recording" }, .main, .main, .main, .handle]
          = some w ∧
      (w.Quiescent → Follows w) ∧
        ∀ e w', w.step e = some w' → meets w e = false →
          ∀ later w'', (∀ e ∈ later, e.isPublisher = false) →
            w'.run (fun _ _ => true) later = some w'' → w''.Quiescent → ¬Follows w'' := by
  have hsome : (World.run meets {}
      [.main, .main, .main, .props, .gain { state := "recording" }, .main, .main, .main,
        .handle]).isSome := by
    decide +kernel
  obtain ⟨w, hrun⟩ := Option.isSome_iff_exists.mp hsome
  exact ⟨w, hrun, hud_follows hrun⟩

/-- A publisher that comes after the worker has asked for it, and before it has subscribed. -/
theorem gained_unseen :
    ∃ w, World.run (fun _ _ => true) {}
        [.main, .gain { state := "recording" }, .main, .main, .props] = some w ∧
      w.Quiescent ∧ w.owned = true ∧ w.service.available = false ∧ ¬Follows w := by
  refine ⟨_, rfl, ⟨rfl, rfl, rfl, rfl, rfl⟩, rfl, rfl, fun hfollows => ?_⟩
  exact absurd hfollows.available (by decide)

end Bus

end Hud

end Myna
