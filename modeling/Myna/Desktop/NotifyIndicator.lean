import Myna.Desktop.Controller

/-!
# Myna — the toast (`myna_desktop::indicator::notify`)

One toast stands for the whole of a dictation: each state replaces it, `Hidden` closes it, and a
notice is closed by the hold that `set_state` arms for it. The server may refuse a `Notify`, and
then leaves its toasts as they were. `tr` translates.

* **`World.step`** — a call of `set_state`, or the end of a hold;
* **`one_right_toast`** — what holds while no refusal has a notice and a live state exchanged.
-/

namespace Myna

namespace Desktop

namespace NotifyIndicator

/-! ## Texts and holds -/

/-- A toast's summary and body. -/
abbrev Text := String × String

/-- `none` means "close the toast". -/
def toastText (tr : String → String) : IndicatorState → Option Text
  | .hidden => none
  | .recording =>
    some (tr "🎤 Dictation: listening", tr "Speak now. Press your shortcut again to stop.")
  | .transcribing => some (tr "💬 Dictation: transcribing", tr "Converting speech to text…")
  | .finalizing => some (tr "⏳ Dictation: finishing", tr "Inserting the final text…")
  | .error message _ => some (tr "⚠️ Dictation error", message)

def holdMsFor (body : String) : ℕ :=
  let perCharMs := 60
  let minMs := 8000
  let maxMs := 15000
  min (max (body.length * perCharMs) minMs) maxMs

def isNotice : IndicatorState → Bool
  | .error _ recoverable => recoverable
  | _ => false

def isError : IndicatorState → Bool
  | .error _ _ => true
  | _ => false

/-! ## The server -/

structure Toast where
  id : ℕ
  text : Text
  critical : Bool
deriving DecidableEq

/-- `Toasts::notify`, accepted: `fresh` is the id that a new toast gets. -/
def notify (toasts : List Toast) (replaces : ℕ) (text : Text) (critical : Bool) (fresh : ℕ) :
    ℕ × List Toast :=
  if toasts.any (·.id = replaces) then
    (replaces, toasts.map fun toast =>
      if toast.id = replaces then { toast with text, critical } else toast)
  else (fresh, toasts ++ [⟨fresh, text, critical⟩])

def close (toasts : List Toast) (id : ℕ) : List Toast := toasts.filter (·.id ≠ id)

/-! ## Calls and holds -/

/-- The task that closes a toast after `ms`; its handle outlives it. -/
structure Hold where
  toast : ℕ
  ms : ℕ
  running : Bool := true
deriving DecidableEq

/-- The server and the indicator. `accepted` is the latest state whose `Notify` the server
accepted, `last` that of the latest call. -/
structure World where
  toasts : List Toast := []
  live : Option (ℕ × Text) := none
  pendingHide : Option Hold := none
  accepted : Option IndicatorState := none
  last : Option IndicatorState := none

/-- `reply` is the server's answer to a `Notify`: the id it has for a new toast, or a refusal. -/
inductive Event
  | setState (state : IndicatorState) (reply : Option ℕ)
  | expire
deriving DecidableEq

namespace World

def abortPending (w : World) : World := { w with pendingHide := none }

/-- `NotifyIndicator::show`. A refused replacement leaves the old toast up: keep its id. -/
def showToast (w : World) (state : IndicatorState) (text : Text) (reply : Option ℕ) : World :=
  match reply with
  | some fresh =>
    let (id, toasts) := notify w.toasts (w.live.elim 0 Prod.fst) text (isError state) fresh
    { w with toasts, live := some (id, text), accepted := some state }
  | none => w

def scheduleAutoHide (w : World) (ms : ℕ) : World :=
  let w := w.abortPending
  match w.live with
  | some (id, _) => { w with pendingHide := some { toast := id, ms } }
  | none => w

/-- A call sends a `Notify`, unless the toast has that text already. -/
def sends (w : World) (state : IndicatorState) (text : Text) : Bool :=
  isError state || !w.live.any (·.2 = text)

section

variable (tr : String → String)

def setState (w : World) (state : IndicatorState) (reply : Option ℕ) : World :=
  let w := { w with last := some state }
  match toastText tr state with
  | some text =>
    if w.sends state text then
      let shown := w.abortPending.showToast state text reply
      if isNotice state then shown.scheduleAutoHide (holdMsFor text.2) else shown
    else w
  | none =>
    if w.pendingHide.isSome then w
    else
      match w.live with
      | some (id, _) => { w with live := none, toasts := close w.toasts id }
      | none => w

/-- A new toast gets an id that no open one has; a hold ends only while it runs. -/
def step (w : World) : Event → Option World
  | .setState state reply =>
    if reply.all fun fresh => 0 < fresh && w.toasts.all (·.id ≠ fresh) then
      some (w.setState tr state reply)
    else none
  | .expire =>
    match w.pendingHide with
    | some ⟨toast, ms, true⟩ =>
      some { w with toasts := close w.toasts toast, pendingHide := some ⟨toast, ms, false⟩ }
    | _ => none

/-- A run, each of whose steps is one that `may` allows. -/
def run (may : World → Event → Bool) (w : World) (events : List Event) : Option World :=
  events.foldlM (fun w e => if may w e then w.step tr e else none) w

end

/-- What the server shows is a notice. -/
def showsNotice (w : World) : Bool := w.accepted.any isNotice

/-- A hold runs. -/
def holds (w : World) : Bool := w.pendingHide.any (·.running)

end World

/-! ## What the toast owes to the calls -/

section

variable (tr : String → String)

/-- One toast, and the right one. -/
structure Right (w : World) : Prop where
  one : w.toasts.length ≤ 1
  text : ∀ toast ∈ w.toasts, ∃ state, w.accepted = some state ∧
    toastText tr state = some toast.text ∧ toast.critical = isError state
  /-- A hold runs on a toast that shows a notice. -/
  held : w.showsNotice → ∀ toast ∈ w.toasts, ∃ ms, w.pendingHide = some ⟨toast.id, ms, true⟩
  hidden : w.last = some .hidden → w.holds = false → w.toasts = []

/-- A step closes only what it is there to close. -/
structure Closes (w : World) (e : Event) (w' : World) : Prop where
  /-- Only `Hidden` closes a toast that shows a live state or a critical error. -/
  live : w.showsNotice = false → (∀ reply, e ≠ .setState .hidden reply) →
    ∀ toast ∈ w.toasts, toast.id ∈ w'.toasts.map Toast.id
  /-- Only the end of its hold closes a toast that shows a notice. -/
  notice : w.showsNotice → e ≠ .expire → ∀ toast ∈ w.toasts, toast.id ∈ w'.toasts.map Toast.id
  expired : w.showsNotice → e = .expire → w'.toasts = []

/-- A `Notify` that is refused while a toast is open is a notice exactly if the toast shows one. -/
def agrees (w : World) : Event → Bool
  | .setState state none =>
    match toastText tr state with
    | some text => w.toasts = [] || !w.sends state text || isNotice state = w.showsNotice
    | none => true
  | _ => true

/-! ## The invariant -/

/-- The one toast that is open, and the state it shows. -/
structure Showing (w : World) (toast : Toast) (state : IndicatorState) : Prop where
  toasts : w.toasts = [toast]
  live : w.live = some (toast.id, toast.text)
  accepted : w.accepted = some state
  text : toastText tr state = some toast.text
  critical : toast.critical = isError state
  notice : isNotice state → ∃ ms, w.pendingHide = some ⟨toast.id, ms, true⟩
  other : isNotice state = false → w.pendingHide = none ∧ w.last ≠ some .hidden

def Inv (w : World) : Prop := w.toasts = [] ∨ ∃ toast state, Showing tr w toast state

end

section

variable {tr : String → String} {w w' : World} {e : Event} {toast : Toast}
  {state shown : IndicatorState} {text : Text}

theorem hidden_of_toastText (h : toastText tr state = none) : state = .hidden := by
  cases state with
  | hidden => rfl
  | _ => cases h

theorem close_self (toast : Toast) : close [toast] toast.id = [] := by
  simp [close]

theorem notify_nil (replaces : ℕ) (critical : Bool) (fresh : ℕ) :
    notify [] replaces text critical fresh = (fresh, [⟨fresh, text, critical⟩]) := rfl

theorem notify_self (critical : Bool) (fresh : ℕ) :
    notify [toast] toast.id text critical fresh = (toast.id, [⟨toast.id, text, critical⟩]) := by
  simp [notify]

namespace Showing

theorem showsNotice (h : Showing tr w toast shown) : w.showsNotice = isNotice shown := by
  rw [World.showsNotice, h.accepted]
  rfl

theorem notify (h : Showing tr w toast shown) (critical : Bool) (fresh : ℕ) :
    notify w.toasts (w.live.elim 0 Prod.fst) text critical fresh
      = (toast.id, [⟨toast.id, text, critical⟩]) := by
  rw [h.toasts, h.live]
  exact notify_self critical fresh

theorem right (h : Showing tr w toast shown) : Right tr w := by
  have honly : ∀ t ∈ w.toasts, t = toast := by
    intro t ht
    rw [h.toasts] at ht
    exact List.mem_singleton.mp ht
  refine ⟨?_, ?_, ?_, ?_⟩
  · rw [h.toasts]
    exact Nat.le_refl 1
  · intro t ht
    rw [honly t ht]
    exact ⟨shown, h.accepted, h.text, h.critical⟩
  · intro hnotice t ht
    rw [honly t ht]
    exact h.notice (h.showsNotice ▸ hnotice)
  · intro hlast hidle
    cases hnotice : isNotice shown with
    | true =>
      obtain ⟨ms, hhold⟩ := h.notice hnotice
      rw [World.holds, hhold] at hidle
      cases hidle
    | false => exact absurd hlast (h.other hnotice).2

end Showing

theorem Inv.right (h : Inv tr w) : Right tr w := by
  rcases h with hnone | ⟨toast, shown, h⟩
  · have hno : ∀ toast, toast ∉ w.toasts := by simp [hnone]
    refine ⟨by simp [hnone], ?_, ?_, fun _ _ => hnone⟩
    · exact fun toast htoast => absurd htoast (hno toast)
    · exact fun _ toast htoast => absurd htoast (hno toast)
  · exact h.right

/-! ## What a call does -/

theorem setState_hidden (w : World) (reply : Option ℕ) :
    w.setState tr .hidden reply =
      let w := { w with last := some .hidden }
      if w.pendingHide.isSome then w
      else
        match w.live with
        | some (id, _) => { w with live := none, toasts := close w.toasts id }
        | none => w := rfl

/-- A state whose text the toast has already. -/
theorem setState_same (htext : toastText tr state = some text) (hsends : w.sends state text = false)
    (reply : Option ℕ) : w.setState tr state reply = { w with last := some state } := by
  simp only [World.setState, htext]
  exact if_neg (by simpa [World.sends] using hsends)

theorem ne_hidden (htext : toastText tr state = some text) : state ≠ .hidden := by
  rintro rfl
  cases htext

/-- A `Notify` that the server accepts. -/
theorem setState_accepted (htext : toastText tr state = some text)
    (hsends : w.sends state text = true) {fresh id : ℕ} {toasts : List Toast}
    (hnotify : notify w.toasts (w.live.elim 0 Prod.fst) text (isError state) fresh = (id, toasts)) :
    w.setState tr state (some fresh) =
      { toasts, live := some (id, text), accepted := some state, last := some state
        pendingHide :=
          if isNotice state then some { toast := id, ms := holdMsFor text.2 } else none } := by
  have hsends' : World.sends { w with last := some state } state text = true := hsends
  simp only [World.setState, htext, hsends', if_true, World.showToast, World.abortPending, hnotify]
  cases isNotice state <;> rfl

/-- A `Notify` that the server refuses: a notice holds whatever toast is live. -/
theorem setState_refused (htext : toastText tr state = some text)
    (hsends : w.sends state text = true) :
    w.setState tr state none =
      { w with
        last := some state
        pendingHide :=
          if isNotice state then w.live.map fun live => ⟨live.1, holdMsFor text.2, true⟩
          else none } := by
  have hsends' : World.sends { w with last := some state } state text = true := hsends
  simp only [World.setState, htext, hsends', if_true, World.showToast]
  cases isNotice state
  · rfl
  · simp only [if_true, World.scheduleAutoHide, World.abortPending]
    cases w.live <;> rfl

/-- The server replaces the one toast there is, or opens the one there is then. -/
theorem Inv.notify (h : Inv tr w) (text : Text) (critical : Bool) (fresh : ℕ) :
    ∃ id, notify w.toasts (w.live.elim 0 Prod.fst) text critical fresh
        = (id, [⟨id, text, critical⟩]) ∧ ∀ toast ∈ w.toasts, toast.id = id := by
  rcases h with hnone | ⟨toast, shown, h⟩
  · exact ⟨fresh, by rw [hnone, notify_nil], by simp [hnone]⟩
  · exact ⟨toast.id, h.notify critical fresh, by simp [h.toasts]⟩

theorem Inv.accepted (h : Inv tr w) (htext : toastText tr state = some text)
    (hsends : w.sends state text = true) (fresh : ℕ) :
    ∃ toast, Showing tr (w.setState tr state (some fresh)) toast state ∧
      ∀ old ∈ w.toasts, old.id = toast.id := by
  obtain ⟨id, hnotify, hid⟩ := h.notify text (isError state) fresh
  refine ⟨⟨id, text, isError state⟩, ?_, hid⟩
  rw [setState_accepted htext hsends hnotify]
  refine ⟨rfl, rfl, rfl, htext, rfl, ?_, ?_⟩
  · intro hnotice
    exact ⟨holdMsFor text.2, if_pos hnotice⟩
  · intro hnotice
    refine ⟨if_neg (by simp [hnotice]), fun hlast => ?_⟩
    exact ne_hidden htext (Option.some.inj hlast)

/-- A refusal that agrees with what the toast shows changes at most how long a notice is held. -/
theorem Showing.refused (h : Showing tr w toast shown) (htext : toastText tr state = some text)
    (hsends : w.sends state text = true) (hagree : isNotice state = isNotice shown) :
    Showing tr (w.setState tr state none) toast shown := by
  rw [setState_refused htext hsends]
  refine ⟨h.toasts, h.live, h.accepted, h.text, h.critical, ?_, ?_⟩
  · intro hnotice
    refine ⟨holdMsFor text.2, ?_⟩
    show (if isNotice state then _ else none) = _
    rw [if_pos (hagree.trans hnotice), h.live]
    rfl
  · intro hnotice
    refine ⟨if_neg (by simp [hagree, hnotice]), fun hlast => ?_⟩
    exact ne_hidden htext (Option.some.inj hlast)

theorem Showing.same (h : Showing tr w toast shown) (hstate : state ≠ .hidden) :
    Showing tr { w with last := some state } toast shown :=
  ⟨h.toasts, h.live, h.accepted, h.text, h.critical, h.notice, fun hnotice =>
    ⟨(h.other hnotice).1, fun hlast => hstate (Option.some.inj hlast)⟩⟩

/-- `Hidden` leaves a notice to its hold. -/
theorem Showing.hidden_notice (h : Showing tr w toast shown) (hnotice : isNotice shown)
    (reply : Option ℕ) : Showing tr (w.setState tr .hidden reply) toast shown := by
  obtain ⟨ms, hhold⟩ := h.notice hnotice
  rw [setState_hidden]
  simp only [hhold, Option.isSome_some, if_true]
  refine ⟨h.toasts, h.live, h.accepted, h.text, h.critical, fun _ => ⟨ms, rfl⟩, fun hother => ?_⟩
  exact absurd hnotice (by simp [hother])

theorem Showing.hidden_other (h : Showing tr w toast shown) (hother : isNotice shown = false)
    (reply : Option ℕ) : (w.setState tr .hidden reply).toasts = [] := by
  rw [setState_hidden]
  simp only [(h.other hother).1, h.live, h.toasts]
  exact close_self toast

theorem hidden_nil (hnone : w.toasts = []) (reply : Option ℕ) :
    (w.setState tr .hidden reply).toasts = [] := by
  rw [setState_hidden]
  dsimp only
  split
  · exact hnone
  · split
    · simp [hnone, close]
    · exact hnone

/-! ## The steps -/

theorem Showing.expire (h : Showing tr w toast shown) (hw : w.step tr .expire = some w') :
    isNotice shown ∧ w'.toasts = [] := by
  cases hnotice : isNotice shown with
  | false => simp [World.step, (h.other hnotice).1] at hw
  | true =>
    obtain ⟨ms, hhold⟩ := h.notice hnotice
    simp only [World.step, hhold, Option.some.injEq] at hw
    subst hw
    refine ⟨rfl, ?_⟩
    show close w.toasts toast.id = []
    rw [h.toasts]
    exact close_self toast

theorem expire_nil (hnone : w.toasts = []) (hw : w.step tr .expire = some w') : w'.toasts = [] := by
  simp only [World.step] at hw
  split at hw <;> cases hw
  simp [hnone, close]

theorem step_setState {reply : Option ℕ} (hw : w.step tr (.setState state reply) = some w') :
    w' = w.setState tr state reply := by
  simp only [World.step] at hw
  split at hw <;> cases hw
  rfl

/-- What a call does to the toast: `Hidden` apart, it leaves it open. -/
theorem Showing.setState_toasts (h : Showing tr w toast shown) (hstate : state ≠ .hidden)
    (reply : Option ℕ) : toast.id ∈ (w.setState tr state reply).toasts.map Toast.id := by
  have hopen : toast.id ∈ w.toasts.map Toast.id := by simp [h.toasts]
  cases htext : toastText tr state with
  | none => exact absurd (hidden_of_toastText htext) hstate
  | some text =>
    cases hsends : w.sends state text with
    | false =>
      rw [setState_same htext hsends]
      exact hopen
    | true =>
      cases reply with
      | none =>
        rw [setState_refused htext hsends]
        exact hopen
      | some fresh =>
        obtain ⟨new, hnew, hid⟩ :=
          Inv.accepted (.inr ⟨toast, shown, h⟩) htext hsends fresh
        rw [hnew.toasts, hid toast (by simp [h.toasts])]
        exact List.mem_singleton_self _

/-- Every step closes only what it is there to close. -/
theorem Inv.closes (h : Inv tr w) (hw : w.step tr e = some w') : Closes w e w' := by
  rcases h with hnone | ⟨toast, shown, h⟩
  · have hno : ∀ toast, toast ∉ w.toasts := by simp [hnone]
    refine ⟨fun _ _ toast htoast => absurd htoast (hno toast),
      fun _ _ toast htoast => absurd htoast (hno toast), ?_⟩
    rintro - rfl
    exact expire_nil hnone hw
  · have honly : ∀ t ∈ w.toasts, t = toast := by
      intro t ht
      rw [h.toasts] at ht
      exact List.mem_singleton.mp ht
    refine ⟨?_, ?_, ?_⟩
    · intro hlive hhidden t ht
      rw [honly t ht]
      cases e with
      | expire =>
        obtain ⟨hnotice, -⟩ := h.expire hw
        rw [h.showsNotice] at hlive
        exact absurd hnotice (by simp [hlive])
      | setState state reply =>
        obtain rfl := step_setState hw
        exact h.setState_toasts (fun hstate => hhidden reply (by rw [hstate])) reply
    · intro hnotice hexpire t ht
      rw [honly t ht]
      rw [h.showsNotice] at hnotice
      cases e with
      | expire => exact absurd rfl hexpire
      | setState state reply =>
        obtain rfl := step_setState hw
        by_cases hstate : state = .hidden
        · subst hstate
          rw [(h.hidden_notice hnotice reply).toasts]
          exact List.mem_singleton_self _
        · exact h.setState_toasts hstate reply
    · rintro - rfl
      exact (h.expire hw).2

/-- A step that agrees with what the toast shows keeps the invariant. -/
theorem Inv.step (h : Inv tr w) (hagrees : agrees tr w e = true) (hw : w.step tr e = some w') :
    Inv tr w' := by
  cases e with
  | expire =>
    rcases h with hnone | ⟨toast, shown, h⟩
    · exact .inl (expire_nil hnone hw)
    · exact .inl (h.expire hw).2
  | setState state reply =>
    obtain rfl := step_setState hw
    cases htext : toastText tr state with
    | none =>
      obtain rfl := hidden_of_toastText htext
      rcases h with hnone | ⟨toast, shown, h⟩
      · exact .inl (hidden_nil hnone reply)
      · cases hnotice : isNotice shown with
        | true => exact .inr ⟨toast, shown, h.hidden_notice hnotice reply⟩
        | false => exact .inl (h.hidden_other hnotice reply)
    | some text =>
      cases hsends : w.sends state text with
      | false =>
        rw [setState_same htext hsends]
        exact h.imp_right fun ⟨toast, shown, h⟩ => ⟨toast, shown, h.same (ne_hidden htext)⟩
      | true =>
        cases reply with
        | some fresh =>
          obtain ⟨toast, hshowing, -⟩ := h.accepted htext hsends fresh
          exact .inr ⟨toast, state, hshowing⟩
        | none =>
          rcases h with hnone | ⟨toast, shown, h⟩
          · rw [setState_refused htext hsends]
            exact .inl hnone
          · refine .inr ⟨toast, shown, h.refused htext hsends ?_⟩
            simpa [agrees, htext, hsends, h.toasts, h.showsNotice] using hagrees

theorem Inv.run (h : Inv tr w) {events : List Event}
    (hrun : w.run tr (agrees tr) events = some w') : Inv tr w' := by
  induction events generalizing w with
  | nil =>
    obtain rfl := Option.some.inj hrun
    exact h
  | cons e events ih =>
    obtain ⟨next, hnext, hrun⟩ := Option.bind_eq_some_iff.mp hrun
    dsimp only at hnext
    split at hnext
    · rename_i hagrees
      exact ih (h.step hagrees hnext) hrun
    · cases hnext

/-- A refusal that does not agree shows in what follows: a notice loses its hold, or a live state
gets one. -/
theorem Showing.disagrees (h : Showing tr w toast shown)
    (htext : toastText tr state = some text) (hsends : w.sends state text = true)
    (hdiffer : isNotice state ≠ isNotice shown) (hright : Right tr (w.setState tr state none))
    (hcloses : ∀ e w'', (w.setState tr state none).step tr e = some w'' →
      Closes (w.setState tr state none) e w'') : False := by
  rw [setState_refused htext hsends] at hright hcloses
  cases hnotice : isNotice shown with
  | true =>
    have hstate : isNotice state = false := by simpa [hnotice] using hdiffer
    have hshows : w.showsNotice = true := h.showsNotice.trans hnotice
    obtain ⟨ms, hhold⟩ := hright.held hshows toast (by simp [h.toasts])
    simp [hstate] at hhold
  | false =>
    have hstate : isNotice state = true := by simpa [hnotice] using hdiffer
    have hshows : w.showsNotice = false := h.showsNotice.trans hnotice
    have hopen := (hcloses .expire _ (by simp [World.step, hstate, h.live]; rfl)).live hshows
      nofun toast (by simp [h.toasts])
    simp [h.toasts, close] at hopen

theorem Inv.agrees_iff (h : Inv tr w) (hw : w.step tr e = some w') :
    agrees tr w e = true ↔
      Right tr w' ∧ ∀ e' w'', w'.step tr e' = some w'' → Closes w' e' w'' := by
  constructor
  · intro hagrees
    have h' := h.step hagrees hw
    exact ⟨h'.right, fun _ _ hstep => h'.closes hstep⟩
  · rintro ⟨hright, hcloses⟩
    rw [← Bool.not_eq_false]
    intro hagrees
    cases e with
    | expire => cases hagrees
    | setState state reply =>
      obtain rfl := step_setState hw
      cases reply with
      | some fresh => cases hagrees
      | none =>
        cases htext : toastText tr state with
        | none => simp [agrees, htext] at hagrees
        | some text =>
          rcases h with hnone | ⟨toast, shown, h⟩
          · simp [agrees, htext, hnone] at hagrees
          · simp only [agrees, htext, h.toasts, h.showsNotice] at hagrees
            have hdiffer : w.sends state text = true ∧ isNotice state ≠ isNotice shown := by
              simpa using hagrees
            obtain ⟨hsends, hdiffer⟩ := hdiffer
            exact h.disagrees htext hsends hdiffer hright hcloses

/-- **One toast, and the right one**, through every run in which no refusal has a notice and a live
state exchanged; and the first such refusal breaks it. -/
theorem one_right_toast (tr : String → String) {events : List Event} {w : World}
    (hrun : World.run tr (agrees tr) {} events = some w) :
    Right tr w ∧ ∀ e w', w.step tr e = some w' →
      Closes w e w' ∧ (agrees tr w e = true ↔
        Right tr w' ∧ ∀ e' w'', w'.step tr e' = some w'' → Closes w' e' w'') := by
  have h : Inv tr w := Inv.run (.inl rfl) hrun
  exact ⟨h.right, fun _ _ hw => ⟨h.closes hw, h.agrees_iff hw⟩⟩

/-- The run of a dictation in which nothing was heard. -/
theorem noSpeech_right :
    ∃ w, World.run id (agrees id) {}
        [.setState .recording (some 1), .setState (.recoverable "No speech detected") (some 2),
          .setState .hidden none] = some w ∧ w.toasts.length = 1 ∧
      Right id w ∧ ∀ e w', w.step id e = some w' →
        Closes w e w' ∧ (agrees id w e = true ↔
          Right id w' ∧ ∀ e' w'', w'.step id e' = some w'' → Closes w' e' w'') := by
  have hrun : World.run id (agrees id) {}
      [.setState .recording (some 1), .setState (.recoverable "No speech detected") (some 2),
        .setState .hidden none] = some _ := rfl
  exact ⟨_, hrun, rfl, one_right_toast id hrun⟩

/-- A notice that is refused over `Recording` gets a hold all the same, which closes the toast. -/
theorem recording_closed :
    ((World.run id (fun _ _ => true) {}
        [.setState .recording (some 1), .setState (.recoverable "No speech detected") none]).map
      fun w => (w.accepted, w.toasts.map Toast.id)) = some (some .recording, [1]) ∧
    ((World.run id (fun _ _ => true) {}
        [.setState .recording (some 1), .setState (.recoverable "No speech detected") none,
          .expire]).map
      fun w => (w.accepted, w.toasts.map Toast.id)) = some (some .recording, []) := by
  decide +kernel

end

end NotifyIndicator

end Desktop

end Myna
