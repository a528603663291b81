import Mathlib.Data.List.Chain
import Myna.Desktop.Controller

/-!
# Myna — the control trigger (`myna_desktop::shortcut::control`)

Pokes queue up in a channel; `next_edge` reads them, and answers an edge for each press and none for
a held key's repeats. What it is deciding is kept in the trigger, so that the future can be dropped
at either of its two awaits. Times are nanoseconds. `number` and `decided` are read by nothing: they
say which poke an arrival is, and what became of it.
-/

namespace Myna

namespace Desktop

namespace Shortcut

/-! ## The trigger -/

/-- Pokes queued beyond this are dropped. -/
def BACKLOG : ℕ := 8

def REPEAT_QUIET : ℕ := 800000000

def REPEAT_FOLLOW : ℕ := 200000000

structure Arrival where
  time : ℕ
  gap : Option ℕ
  number : ℕ
deriving DecidableEq

/-- `gap.is_some_and(|gap| gap < window)`. -/
def Arrival.within (a : Arrival) (window : ℕ) : Bool := a.gap.any (· < window)

inductive Fate
  | toggled
  | repeated
  | discarded
deriving DecidableEq

structure ControlTrigger where
  pressed : Bool := false
  candidate : Option Arrival := none
  later : Option Arrival := none
  streaming : Bool := false
  quiet : ℕ := REPEAT_QUIET
  rx : List Arrival := []
  last : Option ℕ := none
  decided : List (Arrival × Fate) := []

/-- Where a suspended `next_edge` stands: it waits for a poke, or for one to follow a candidate. -/
inductive Await
  | recv
  | follow (candidate : Arrival)
deriving DecidableEq

/-- What a turn of the loop of `next_edge` comes to. -/
inductive Turn
  | edge (e : TriggerEdge) (t : ControlTrigger)
  | again (t : ControlTrigger)
  | wait (a : Await) (t : ControlTrigger)

/-- What polling `next_edge` answers. -/
inductive Polled
  | ready (e : TriggerEdge) (t : ControlTrigger)
  | pending (a : Await) (t : ControlTrigger)

namespace ControlTrigger

def record (t : ControlTrigger) (a : Arrival) (fate : Fate) : ControlTrigger :=
  { t with decided := t.decided ++ [(a, fate)] }

def toggle (t : ControlTrigger) : Turn :=
  let t := { t with pressed := !t.pressed }
  .edge (if t.pressed then .press else .release) t

/-- The candidate is a press, unless `next` follows it closely. -/
def settle (t : ControlTrigger) (candidate : Arrival) (next : Option Arrival) : Turn :=
  let t := { t with candidate := none }
  match next with
  | some next =>
    if next.within REPEAT_FOLLOW then
      .again (({ t with streaming := true }.record candidate .repeated).record next .repeated)
    else ({ t with later := some next }.record candidate .toggled).toggle
  | none => ({ t with later := none }.record candidate .toggled).toggle

def take (t : ControlTrigger) (arrival : Arrival) : Turn :=
  if !arrival.within t.quiet then
    ({ t with streaming := false }.record arrival .toggled).toggle
  else if t.streaming && arrival.within REPEAT_FOLLOW then .again (t.record arrival .repeated)
  else .again { t with streaming := false, candidate := some arrival }

/-- `timeout_at(deadline, self.rx.recv()).await`: a poke that is there counts, however late. -/
def awaitFollow (now : ℕ) (t : ControlTrigger) (candidate : Arrival) : Turn :=
  match t.rx with
  | next :: rx => { t with rx }.settle candidate (some next)
  | [] =>
    if candidate.time + REPEAT_FOLLOW ≤ now then t.settle candidate none
    else .wait (.follow candidate) t

/-- `self.rx.recv().await`; the trigger holds a sender itself. -/
def awaitRecv (t : ControlTrigger) : Turn :=
  match t.rx with
  | arrival :: rx => { t with rx }.take arrival
  | [] => .wait .recv t

/-- The body of the loop. -/
def turn (now : ℕ) (t : ControlTrigger) : Turn :=
  match t.candidate with
  | some candidate =>
    match t.later with
    | some next => { t with later := none }.settle candidate (some next)
    | none => t.awaitFollow now candidate
  | none =>
    match t.later with
    | some arrival => { t with later := none }.take arrival
    | none => t.awaitRecv

/-- The pokes that nothing has been decided of, in order. -/
def waiting (t : ControlTrigger) : List Arrival :=
  t.candidate.toList ++ t.later.toList ++ t.rx

/-- A turn that goes on has used a poke up, or made it the candidate. -/
def size (t : ControlTrigger) : ℕ :=
  2 * (t.later.toList.length + t.rx.length) + t.candidate.toList.length

theorem settle_again_size {t t' : ControlTrigger} {c : Arrival} {next : Option Arrival}
    (h : t.settle c next = .again t') :
    t'.size = 2 * (t.later.toList.length + t.rx.length) := by
  unfold settle toggle at h
  dsimp only at h
  split at h
  · split at h
    · obtain rfl := Turn.again.inj h
      simp [size, record]
    · cases h
  · cases h

theorem take_again_size {t t' : ControlTrigger} {a : Arrival} (h : t.take a = .again t')
    (hc : t.candidate = none) : t'.size ≤ 2 * (t.later.toList.length + t.rx.length) + 1 := by
  unfold take toggle at h
  dsimp only at h
  split at h
  · cases h
  split at h
  · obtain rfl := Turn.again.inj h
    simp [size, record, hc]
  · obtain rfl := Turn.again.inj h
    simp [size]

theorem turn_again_size {now : ℕ} {t t' : ControlTrigger} (h : turn now t = .again t') :
    t'.size < t.size := by
  unfold turn awaitFollow awaitRecv at h
  split at h
  case h_1 candidate hc =>
    split at h
    case h_1 next hl =>
      have := settle_again_size h
      simp [size, hc, hl] at this ⊢
      omega
    case h_2 hl =>
      split at h
      case h_1 next rx hrx =>
        have := settle_again_size h
        simp [size, hc, hl, hrx] at this ⊢
        omega
      case h_2 hrx =>
        split at h
        · have := settle_again_size h
          simp [size, hc, hl, hrx] at this ⊢
          omega
        · cases h
  case h_2 hc =>
    split at h
    case h_1 arrival hl =>
      have := take_again_size h hc
      simp [size, hc, hl] at this ⊢
      omega
    case h_2 hl =>
      split at h
      case h_1 arrival rx hrx =>
        have := take_again_size h hc
        simp [size, hc, hl, hrx] at this ⊢
        omega
      case h_2 => cases h

/-- The loop, from its top. -/
def loop (now : ℕ) (t : ControlTrigger) : Polled :=
  match _hturn : turn now t with
  | .edge e t => .ready e t
  | .wait a t => .pending a t
  | .again t' => loop now t'
termination_by t.size
decreasing_by exact turn_again_size _hturn

/-- A `next_edge` is polled: a new one, or one that stands at an await. -/
def resume (t : ControlTrigger) (now : ℕ) (future : Option Await) : Turn :=
  match future with
  | none => turn now t
  | some .recv => t.awaitRecv
  | some (.follow candidate) => t.awaitFollow now candidate

def poll (now : ℕ) (future : Option Await) (t : ControlTrigger) : Polled :=
  match t.resume now future with
  | .edge e t => .ready e t
  | .wait a t => .pending a t
  | .again t => loop now t

def discardPending (t : ControlTrigger) : ControlTrigger :=
  { t with candidate := none, later := none, rx := [],
           decided := t.decided ++ t.waiting.map fun a => (a, .discarded) }

def resync (t : ControlTrigger) : ControlTrigger := { t with pressed := false }

/-- `Poke::poke`, as the `number`-th poke: stamped, and queued unless the backlog is full. -/
def poke (now number : ℕ) (t : ControlTrigger) : Arrival × ControlTrigger :=
  let arrival := ⟨now, t.last.map (now - ·), number⟩
  let rx := if t.rx.length < BACKLOG then t.rx ++ [arrival] else t.rx
  (arrival, { t with last := some now, rx })

end ControlTrigger

/-! ## Runs -/

/-- What the controller sees: the edges, and its own resyncs. -/
inductive Said
  | edge (e : TriggerEdge)
  | resync
deriving DecidableEq

/-- The trigger, the `next_edge` that waits on it if there is one, and what has happened. -/
structure World where
  trigger : ControlTrigger := {}
  future : Option Await := none
  now : ℕ := 0
  sent : List Arrival := []
  said : List Said := []

inductive Event
  | tick (elapsed : ℕ)
  | poke
  | poll
  | cancel
  | discardPending
  | resync

namespace World

/-- `discard_pending` and `resync` borrow the trigger, so that no `next_edge` is left waiting. -/
def step (w : World) : Event → World
  | .tick elapsed => { w with now := w.now + elapsed }
  | .poke =>
    let (arrival, trigger) := w.trigger.poke w.now w.sent.length
    { w with trigger, sent := w.sent ++ [arrival] }
  | .poll =>
    match w.trigger.poll w.now w.future with
    | .ready e trigger => { w with trigger, future := none, said := w.said ++ [.edge e] }
    | .pending a trigger => { w with trigger, future := some a }
  | .cancel => { w with future := none }
  | .discardPending => { w with trigger := w.trigger.discardPending, future := none }
  | .resync =>
    { w with trigger := w.trigger.resync, future := none, said := w.said ++ [.resync] }

def run (w : World) (events : List Event) : World := events.foldl step w

end World

end Shortcut

end Desktop

end Myna
