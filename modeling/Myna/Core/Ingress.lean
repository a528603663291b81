import Mathlib.Algebra.GroupWithZero.Nat
import Mathlib.Data.List.Nodup
import Myna.Core.Audio
import Myna.Lib.History
import Myna.Lib.Segment
import Myna.Lib.StepSystem

/-!
# Myna — the ingress queue of a connection (`_Ingress` of `myna.core.transport_ws`)

Tasks put frames and boundaries into one bounded queue and get them out, and suspend where they
cannot proceed. Between two awaits a task runs alone, so an interleaving is a sequence of `Action`s:
a call begins, a woken task resumes, the stream is closed or aborted, a task is cancelled.

* **`Ingress.next`** — what one action does, and the events it leaves;
* **`Tallied`** — the counters agree with the queue, and queue and log with each other;
* **`Waiting`** — who is left waiting has nothing to go on with;
* **`Owing`** — what a task has asked for is accepted, or still in its hands;
* **`ingress_accounts`** — all of it, in every reachable state.
-/

namespace Myna

namespace Ingress

/-- An entry of the queue: the bytes of a chunk, or an utterance boundary. -/
inductive Item
  | chunk (data : Bytes)
  | boundary
deriving DecidableEq

/-- A task of the event loop. -/
abbrev TaskId := ℕ

/-- A call that is suspended in `_wait`: a `put` with the piece it waits for and the pieces after
it, or a `get`. -/
inductive Call
  | put (item : Item) (rest : List Item)
  | get

/-- A future in one of the two lists: the task that awaits it, and whether it is done. -/
structure Waiter where
  task : TaskId
  call : Call
  done : Bool := false
  cancelled : Bool := false

/-- What happened. -/
inductive Event
  | asked (task : TaskId) (item : Item)
  | accepted (task : TaskId) (item : Item)
  | delivered (task : TaskId) (item : Item)
  | ended (task : TaskId)
  | refused (task : TaskId)
  | aborted
  | cancelled (task : TaskId)
deriving DecidableEq

/-- `_COALESCE_BYTES`. -/
def COALESCE_BYTES : ℕ := 3200

/-- A frame size and a capacity the constructor accepts. -/
structure Bounds where
  frameBytes : ℕ
  capacity : ℕ
  frame_pos : 0 < frameBytes
  frame_le_capacity : frameBytes ≤ capacity

/-- `_Ingress.__init__`: the guard, with its message. -/
def Bounds.check (frameBytes capacity : ℕ) : Except String Bounds :=
  let frameBytes := max 1 frameBytes
  if h : frameBytes ≤ capacity then .ok ⟨frameBytes, capacity, by omega, h⟩
  else .error s!"{capacity} bytes hold no {frameBytes}-byte frame"

end Ingress

open Ingress in
structure Ingress where
  bounds : Bounds
  items : List Item := []
  bytes : ℕ := 0
  boundaryPending : Bool := false
  closed : Bool := false
  aborted : Bool := false
  session : Option TaskId := none
  putters : List Waiter := []
  getters : List Waiter := []

namespace Ingress

/-- `_piece_bytes`: the whole frames that fit the capacity. -/
def pieceBytes (q : Ingress) : ℕ := q.bounds.capacity - q.bounds.capacity % q.bounds.frameBytes

/-- `_has_room`. -/
def hasRoom (q : Ingress) : Item → Bool
  | .boundary => !q.boundaryPending
  | .chunk data => decide (q.bytes + data.length ≤ q.bounds.capacity)

/-- `_wake`: every future of the list is done. -/
def wake (waiters : List Waiter) : List Waiter := waiters.map fun w => { w with done := true }

/-- Queue a chunk, into the last one where both are small. -/
def coalesce (items : List Item) (data : Bytes) : List Item :=
  match items.getLast? with
  | some (.chunk tail) =>
    if tail.length + data.length ≤ COALESCE_BYTES then items.dropLast ++ [.chunk (tail ++ data)]
    else items ++ [.chunk data]
  | _ => items ++ [.chunk data]

/-- The end of `_put`: queue the item and wake the getters. -/
def accept (q : Ingress) (item : Item) : Ingress :=
  let q : Ingress := match item with
    | .boundary => { q with boundaryPending := true, items := q.items ++ [item] }
    | .chunk data => { q with bytes := q.bytes + data.length, items := coalesce q.items data }
  { q with getters := wake q.getters }

/-- `put` from its next piece on: until it has put them all, or waits for room. -/
def putAll (q : Ingress) (t : TaskId) : List Item → List Event × Ingress
  | [] => ([], q)
  | item :: rest =>
    if q.aborted then putAll q t rest
    else if q.hasRoom item then
      let (events, q) := putAll (q.accept item) t rest
      (.accepted t item :: events, q)
    else ([], { q with putters := q.putters ++ [{ task := t, call := .put item rest }] })

/-- `get` from its loop condition on. -/
def getItem (q : Ingress) (t : TaskId) : List Event × Ingress :=
  if q.items = [] ∧ q.closed = false ∧ q.aborted = false then
    ([], { q with getters := q.getters ++ [{ task := t, call := .get }] })
  else if q.aborted then ([.refused t], q)
  else match q.items with
    | [] => ([.ended t], q)
    | .boundary :: items =>
      ([.delivered t .boundary],
        { q with items := items, putters := wake q.putters, boundaryPending := false })
    | .chunk data :: items =>
      ([.delivered t (.chunk data)],
        { q with items := items, putters := wake q.putters, bytes := q.bytes - data.length })

/-- Cancelling a task: the future it awaits is done, and it will find itself cancelled. -/
def cancelTask (q : Ingress) (t : TaskId) : Ingress :=
  let mark := fun w : Waiter => if w.task = t then { w with done := true, cancelled := true } else w
  { q with putters := q.putters.map mark, getters := q.getters.map mark }

def cancelSession (q : Ingress) : Ingress :=
  match q.session with
  | none => q
  | some t => q.cancelTask t

/-- `abort`. -/
def abort (q : Ingress) : Ingress :=
  let q := { q with aborted := true, items := [] }.cancelSession
  { q with putters := wake q.putters, getters := wake q.getters }

/-- `close`. -/
def close (q : Ingress) : Ingress := { q with closed := true, getters := wake q.getters }

/-- `serve`. -/
def serve (q : Ingress) (t : TaskId) : Ingress :=
  let q := { q with session := some t }
  if q.aborted then q.cancelTask t else q

/-- The pieces `put` cuts its frames into. -/
def pieces (q : Ingress) (pcm : Bytes) : List Item :=
  (Segment.blocks q.pieceBytes pcm).map Item.chunk

def waiters (q : Ingress) : List Waiter := q.putters ++ q.getters

def busy (q : Ingress) (t : TaskId) : Bool := q.waiters.any fun w => w.task = t

/-- `waiters.remove(waiter)`. -/
def leave (q : Ingress) (t : TaskId) : Ingress :=
  { q with
    putters := q.putters.filter fun w => w.task ≠ t
    getters := q.getters.filter fun w => w.task ≠ t }

/-- What a task does between two awaits. -/
inductive Action
  | put (t : TaskId) (pcm : Bytes)
  | putBoundary (t : TaskId)
  | get (t : TaskId)
  | resume (t : TaskId)
  | serve (t : TaskId)
  | close
  | abort
  | cancel (t : TaskId)

/-- One action. A task makes one call at a time, and one that waits resumes once its future is
done. -/
def next (q : Ingress) : Action → Option (List Event × Ingress)
  | .put t pcm =>
    if q.busy t then none
    else
      let (events, q') := q.putAll t (q.pieces pcm)
      some ((q.pieces pcm).map (.asked t) ++ events, q')
  | .putBoundary t =>
    if q.busy t then none
    else
      let (events, q') := q.putAll t [.boundary]
      some (.asked t .boundary :: events, q')
  | .get t => if q.busy t then none else some (q.getItem t)
  | .resume t =>
    match q.waiters.find? fun w => w.task = t with
    | none => none
    | some w =>
      if w.done = false then none
      else if w.cancelled then some ([.cancelled t], q.leave t)
      else match w.call with
        | .put item rest => some ((q.leave t).putAll t (item :: rest))
        | .get => some ((q.leave t).getItem t)
  | .serve t => some ([], q.serve t)
  | .close => some ([], q.close)
  | .abort => some ([.aborted], q.abort)
  | .cancel t => some ([], q.cancelTask t)

/-! ## The stream -/

namespace Item

/-- The bytes an item counts for. -/
def size : Item → ℕ
  | .chunk data => data.length
  | .boundary => 0

/-- An item as a piece of the stream: its bytes, or a mark. -/
def marks : Item → List (Option UInt8)
  | .chunk data => data.map some
  | .boundary => [none]

/-- A chunk of whole frames, and not an empty one. -/
def Whole (frameBytes : ℕ) : Item → Prop
  | .chunk data => 0 < data.length ∧ frameBytes ∣ data.length
  | .boundary => True

end Item

/-- The stream the items make up. -/
def stream (items : List Item) : List (Option UInt8) := items.flatMap Item.marks

def queuedBytes (items : List Item) : ℕ := (items.map Item.size).sum

def acceptedItems (log : List Event) : List Item :=
  log.filterMap fun | .accepted _ item => some item | _ => none

def deliveredItems (log : List Event) : List Item :=
  log.filterMap fun | .delivered _ item => some item | _ => none

def askedBy (t : TaskId) (log : List Event) : List Item :=
  log.filterMap fun | .asked t' item => if t' = t then some item else none | _ => none

def acceptedBy (t : TaskId) (log : List Event) : List Item :=
  log.filterMap fun | .accepted t' item => if t' = t then some item else none | _ => none

/-- What an event owes to its past: nothing is taken or given after an abort, and the end of the
stream is told only once everything accepted has been delivered. -/
def Orderly (past : List Event) : Event → Prop
  | .accepted _ _ => .aborted ∉ past
  | .delivered _ _ => .aborted ∉ past
  | .ended _ => .aborted ∉ past ∧ stream (deliveredItems past) = stream (acceptedItems past)
  | .refused _ => .aborted ∈ past
  | _ => True

@[simp] theorem stream_nil : stream [] = [] := rfl

@[simp] theorem stream_append (xs ys : List Item) : stream (xs ++ ys) = stream xs ++ stream ys :=
  List.flatMap_append

@[simp] theorem stream_cons (x : Item) (xs : List Item) : stream (x :: xs) = x.marks ++ stream xs :=
  rfl

@[simp] theorem queuedBytes_append (xs ys : List Item) :
    queuedBytes (xs ++ ys) = queuedBytes xs + queuedBytes ys := by
  simp [queuedBytes]

@[simp] theorem queuedBytes_cons (x : Item) (xs : List Item) :
    queuedBytes (x :: xs) = x.size + queuedBytes xs := by
  simp [queuedBytes]

@[simp] theorem queuedBytes_nil : queuedBytes [] = 0 := rfl

/-! ## What the functions do -/

theorem mem_wake {ws : List Waiter} {w : Waiter} :
    w ∈ wake ws ↔ ∃ v ∈ ws, { v with done := true } = w := List.mem_map

@[simp] theorem map_task_wake (ws : List Waiter) :
    (wake ws).map Waiter.task = ws.map Waiter.task := by
  rw [wake, List.map_map]
  rfl

/-- A chunk is queued as a new item, or at the end of the last one. -/
theorem coalesce_cases (items : List Item) (data : Bytes) :
    coalesce items data = items ++ [.chunk data] ∨
      ∃ init tail, items = init ++ [.chunk tail] ∧
        coalesce items data = init ++ [.chunk (tail ++ data)] := by
  unfold coalesce
  split
  · next tail hlast =>
    obtain ⟨init, rfl⟩ := List.getLast?_eq_some_iff.mp hlast
    split_ifs
    · exact Or.inr ⟨init, tail, rfl, by rw [List.dropLast_concat]⟩
    · exact Or.inl rfl
  · exact Or.inl rfl

/-- What queueing an item does to the stream, the counts and the frames. -/
structure Queues (items : List Item) (item : Item) (items' : List Item) : Prop where
  ne_nil : items' ≠ []
  stream_eq : stream items' = stream items ++ item.marks
  bytes_eq : queuedBytes items' = queuedBytes items + item.size
  boundaries : items'.count .boundary = items.count .boundary + [item].count .boundary
  whole : ∀ n, item.Whole n → (∀ i ∈ items, i.Whole n) → ∀ i ∈ items', i.Whole n

theorem queues_append (items : List Item) (item : Item) : Queues items item (items ++ [item]) where
  ne_nil := by simp
  stream_eq := by simp
  bytes_eq := by simp
  boundaries := List.count_append
  whole := by
    intro n hitem hall i hi
    rcases List.mem_append.mp hi with hold | hnew
    · exact hall i hold
    · rw [List.mem_singleton.mp hnew]
      exact hitem

theorem queues_coalesce (items : List Item) (data : Bytes) :
    Queues items (.chunk data) (coalesce items data) := by
  rcases coalesce_cases items data with happend | ⟨init, tail, rfl, hgrow⟩
  · rw [happend]
    exact queues_append items _
  · rw [hgrow]
    refine ⟨by simp, by simp [Item.marks], ?_, by simp [List.count_append], ?_⟩
    · simp only [queuedBytes_append, queuedBytes_cons, queuedBytes_nil, Item.size,
        List.length_append]
      omega
    · -- two runs of whole frames make one
      intro n hitem hall i hi
      rcases List.mem_append.mp hi with hold | hnew
      · exact hall i (List.mem_append_left _ hold)
      · have htail : (Item.chunk tail).Whole n :=
          hall _ (List.mem_append_right _ (List.mem_singleton_self _))
        rw [List.mem_singleton.mp hnew]
        refine ⟨?_, ?_⟩
        · rw [List.length_append]
          exact Nat.add_pos_left htail.1 _
        · rw [List.length_append]
          exact Nat.dvd_add htail.2 hitem.2

/-- **What `accept` does**: the item goes to the end of the stream, its bytes to the count, and the
getters are woken. -/
theorem accept_spec (q : Ingress) (item : Item) :
    ∃ items, q.accept item = { q with
        items := items
        bytes := q.bytes + item.size
        boundaryPending := q.boundaryPending || decide (item = .boundary)
        getters := wake q.getters } ∧ Queues q.items item items := by
  cases item with
  | boundary => exact ⟨_, by simp [accept, Item.size], queues_append q.items _⟩
  | chunk data => exact ⟨_, by simp [accept, Item.size], queues_coalesce q.items data⟩

/-! ## The queue and the log -/

@[simp] theorem acceptedItems_append (l l' : List Event) :
    acceptedItems (l ++ l') = acceptedItems l ++ acceptedItems l' := List.filterMap_append

@[simp] theorem deliveredItems_append (l l' : List Event) :
    deliveredItems (l ++ l') = deliveredItems l ++ deliveredItems l' := List.filterMap_append

/-- **The counters agree with the queue, and the queue with the log.** Until the stream is aborted
what was delivered and what is queued make up what was accepted; after it nothing is queued. -/
structure Tallied (log : List Event) (q : Ingress) : Prop where
  bytes_le : q.bytes ≤ q.bounds.capacity
  bytes_eq : q.aborted = false → q.bytes = queuedBytes q.items
  boundary : q.aborted = false → q.items.count .boundary = if q.boundaryPending then 1 else 0
  cleared : q.aborted = true → q.items = []
  accounted : q.aborted = false →
    stream (deliveredItems log) ++ stream q.items = stream (acceptedItems log)
  behind : stream (deliveredItems log) <+: stream (acceptedItems log)
  queued : ∀ item ∈ q.items, item.Whole q.bounds.frameBytes
  delivered : ∀ item ∈ deliveredItems log, item.Whole q.bounds.frameBytes
  lawful : History.Lawful Orderly log
  abort_mem : .aborted ∈ log ↔ q.aborted = true

variable {log : List Event} {q : Ingress} {t : TaskId} {item : Item}

/-- The log and the queue are tallied whoever waits and whatever is marked. -/
theorem Tallied.of_eq {q' : Ingress} (h : Tallied log q) (hb : q'.bounds = q.bounds)
    (hitems : q'.items = q.items) (hbytes : q'.bytes = q.bytes)
    (hboundary : q'.boundaryPending = q.boundaryPending) (habort : q'.aborted = q.aborted) :
    Tallied log q' := by
  have hlast := h.abort_mem
  rw [← habort] at hlast
  refine ⟨?_, ?_, ?_, ?_, ?_, h.behind, ?_, ?_, h.lawful, hlast⟩ <;>
    simp only [hb, hitems, hbytes, hboundary, habort]
  exacts [h.bytes_le, h.bytes_eq, h.boundary, h.cleared, h.accounted, h.queued, h.delivered]

theorem Tallied.accept (h : Tallied log q) (hab : q.aborted = false) (hroom : q.hasRoom item = true)
    (hwhole : item.Whole q.bounds.frameBytes) :
    Tallied (log ++ [.accepted t item]) (q.accept item) := by
  obtain ⟨items, haccept, hq⟩ := accept_spec q item
  have hdelivered : deliveredItems (log ++ [.accepted t item]) = deliveredItems log := by
    simp [deliveredItems]
  have haccepted : stream (acceptedItems (log ++ [.accepted t item]))
      = stream (acceptedItems log) ++ item.marks := by
    simp [acceptedItems]
  have hnotmem : Event.aborted ∉ log := by
    rw [h.abort_mem, hab]
    decide
  rw [haccept]
  refine ⟨?_, ?_, ?_, ?_, ?_, ?_, ?_, ?_, ?_, ?_⟩
  · show q.bytes + item.size ≤ q.bounds.capacity
    have hle := h.bytes_le
    cases item with
    | boundary => exact hle
    | chunk data => exact of_decide_eq_true hroom
  · intro _
    show q.bytes + item.size = queuedBytes items
    rw [hq.bytes_eq, h.bytes_eq hab]
  · intro _
    show items.count .boundary = if q.boundaryPending || decide (item = .boundary) then 1 else 0
    rw [hq.boundaries, h.boundary hab]
    cases item with
    | boundary =>
      have hfree : q.boundaryPending = false := by simpa [hasRoom] using hroom
      simp [hfree]
    | chunk data => simp
  · intro habort
    rw [hab] at habort
    cases habort
  · intro _
    show stream (deliveredItems _) ++ stream items = _
    rw [hdelivered, haccepted, hq.stream_eq, ← List.append_assoc, h.accounted hab]
  · rw [hdelivered, haccepted]
    exact h.behind.trans (List.prefix_append _ _)
  · exact hq.whole _ hwhole h.queued
  · rw [hdelivered]
    exact h.delivered
  · exact History.lawful_concat.mpr ⟨h.lawful, hnotmem⟩
  · simp only [List.mem_append, List.mem_singleton, reduceCtorEq, or_false]
    exact h.abort_mem

/-- Delivering the first item. -/
theorem Tallied.deliver {items : List Item} {q' : Ingress} (h : Tallied log q)
    (hab : q.aborted = false) (hitems : q.items = item :: items) (hb : q'.bounds = q.bounds)
    (hitems' : q'.items = items) (hbytes : q'.bytes = q.bytes - item.size)
    (hboundary : q'.boundaryPending = (q.boundaryPending && decide (item ≠ .boundary)))
    (hab' : q'.aborted = false) : Tallied (log ++ [.delivered t item]) q' := by
  have hdelivered : deliveredItems (log ++ [.delivered t item]) = deliveredItems log ++ [item] := by
    simp [deliveredItems]
  have haccepted : acceptedItems (log ++ [.delivered t item]) = acceptedItems log := by
    simp [acceptedItems]
  have hnotmem : Event.aborted ∉ log := by
    rw [h.abort_mem, hab]
    decide
  have hcount := h.boundary hab
  have hsum := h.bytes_eq hab
  have hstream := h.accounted hab
  rw [hitems] at hcount hsum hstream
  refine ⟨?_, ?_, ?_, ?_, ?_, ?_, ?_, ?_, ?_, ?_⟩
  · rw [hbytes, hb]
    exact (Nat.sub_le _ _).trans h.bytes_le
  · intro _
    rw [hbytes, hitems', hsum, queuedBytes_cons]
    omega
  · intro _
    rw [hitems', hboundary]
    cases item with
    | boundary =>
      rw [List.count_cons_self] at hcount
      split_ifs at hcount
      simp_all
    | chunk data =>
      rw [List.count_cons_of_ne (by simp)] at hcount
      simpa using hcount
  · intro habort
    rw [hab'] at habort
    cases habort
  · intro _
    rw [hdelivered, haccepted, hitems', ← hstream]
    simp
  · rw [hdelivered, haccepted, ← hstream]
    simp
  · rw [hitems', hb]
    intro i hi
    exact h.queued i (by rw [hitems]; exact List.mem_cons_of_mem _ hi)
  · rw [hdelivered, hb]
    intro i hi
    rcases List.mem_append.mp hi with hold | hnew
    · exact h.delivered i hold
    · rw [List.mem_singleton.mp hnew]
      exact h.queued item (by rw [hitems]; exact List.mem_cons_self)
  · exact History.lawful_concat.mpr ⟨h.lawful, hnotmem⟩
  · simp only [List.mem_append, List.mem_singleton, reduceCtorEq, or_false]
    rw [h.abort_mem, hab, hab']

/-! ## Who waits -/

/-- **Who is left waiting cannot proceed**: a putter whose future is not done has no room, a getter
whose future is not done has nothing queued and no end to see. A task waits in one place. -/
structure Waiting (q : Ingress) : Prop where
  distinct : (q.waiters.map Waiter.task).Nodup
  putter : ∀ w ∈ q.putters, ∃ item rest, w.call = .put item rest ∧
    (∀ i ∈ item :: rest, i.Whole q.bounds.frameBytes) ∧
    (w.done = false → q.aborted = false ∧ q.hasRoom item = false)
  getter : ∀ w ∈ q.getters, w.call = .get ∧
    (w.done = false → q.items = [] ∧ q.closed = false ∧ q.aborted = false)

/-- Changing what futures are done, so that those that are not still wait for what they did. -/
theorem Waiting.update {q' : Ingress} (h : Waiting q) (f g : Waiter → Waiter)
    (hf : ∀ w, (f w).task = w.task ∧ (f w).call = w.call)
    (hg : ∀ w, (g w).task = w.task ∧ (g w).call = w.call)
    (hputters : q'.putters = q.putters.map f) (hgetters : q'.getters = q.getters.map g)
    (hb : q'.bounds = q.bounds)
    (hput : ∀ w ∈ q.putters, (f w).done = false → w.done = false ∧ ∀ item, q.aborted = false →
      q.hasRoom item = false → q'.aborted = false ∧ q'.hasRoom item = false)
    (hget : ∀ w ∈ q.getters, (g w).done = false → w.done = false ∧
      (q.items = [] → q.closed = false →
      q.aborted = false → q'.items = [] ∧ q'.closed = false ∧ q'.aborted = false)) :
    Waiting q' where
  distinct := by
    have htask : ∀ k : Waiter → Waiter, (∀ w, (k w).task = w.task ∧ (k w).call = w.call) →
        Waiter.task ∘ k = Waiter.task := fun k hk => funext fun w => (hk w).1
    have hd := h.distinct
    rw [waiters, List.map_append] at hd
    rw [waiters, hputters, hgetters, List.map_append, List.map_map, List.map_map, htask f hf,
      htask g hg]
    exact hd
  putter := by
    intro w hw
    rw [hputters] at hw
    obtain ⟨v, hv, rfl⟩ := List.mem_map.mp hw
    obtain ⟨item, rest, hcall, hwhole, hstuck⟩ := h.putter v hv
    refine ⟨item, rest, (hf v).2.trans hcall, by rw [hb]; exact hwhole, fun hdone => ?_⟩
    obtain ⟨hold, hkeep⟩ := hput v hv hdone
    exact hkeep item (hstuck hold).1 (hstuck hold).2
  getter := by
    intro w hw
    rw [hgetters] at hw
    obtain ⟨v, hv, rfl⟩ := List.mem_map.mp hw
    obtain ⟨hcall, hstuck⟩ := h.getter v hv
    refine ⟨(hg v).2.trans hcall, fun hdone => ?_⟩
    obtain ⟨hold, hkeep⟩ := hget v hv hdone
    exact hkeep (hstuck hold).1 (hstuck hold).2.1 (hstuck hold).2.2

/-- A future that is done is done, and one that is kept is kept. -/
private theorem woken (ws : List Waiter) : wake ws = ws.map fun w => { w with done := true } := rfl

private theorem kept (ws : List Waiter) : ws = ws.map id := (List.map_id ws).symm

/-- An item leaves no more room than there was. -/
theorem hasRoom_accept {other : Item} (h : q.hasRoom other = false) :
    (q.accept item).hasRoom other = false := by
  obtain ⟨items, haccept, -⟩ := accept_spec q item
  rw [haccept]
  cases other with
  | boundary =>
    have hpending : q.boundaryPending = true := by simpa [hasRoom] using h
    simp [hasRoom, hpending]
  | chunk data =>
    have hfull : ¬ q.bytes + data.length ≤ q.bounds.capacity := of_decide_eq_false h
    show decide (q.bytes + item.size + data.length ≤ q.bounds.capacity) = false
    rw [decide_eq_false_iff_not]
    omega

theorem Waiting.accept (h : Waiting q) : Waiting (q.accept item) := by
  obtain ⟨items, haccept, -⟩ := accept_spec q item
  have hroom : ∀ other, q.hasRoom other = false → (q.accept item).hasRoom other = false :=
    fun other => hasRoom_accept
  rw [haccept] at hroom ⊢
  refine h.update id (fun w => { w with done := true }) (fun w => ⟨rfl, rfl⟩) (fun w => ⟨rfl, rfl⟩)
    (kept q.putters) (woken q.getters) rfl (fun w _ hdone => ⟨hdone, fun other hab hno => ?_⟩)
    (fun w _ hdone => ?_)
  · exact ⟨hab, hroom other hno⟩
  · cases hdone

theorem busy_eq_false_iff : q.busy t = false ↔ ∀ w ∈ q.waiters, w.task ≠ t := by
  simp [busy]

/-- A task that waits nowhere may begin to. -/
theorem nodup_insert (h : Waiting q) (hfree : q.busy t = false) :
    (t :: q.waiters.map Waiter.task).Nodup := by
  refine List.nodup_cons.mpr ⟨fun hmem => ?_, h.distinct⟩
  obtain ⟨w, hw, hwt⟩ := List.mem_map.mp hmem
  exact busy_eq_false_iff.mp hfree w hw hwt

theorem Waiting.suspendPut {rest : List Item} (h : Waiting q) (hfree : q.busy t = false)
    (hwhole : ∀ i ∈ item :: rest, i.Whole q.bounds.frameBytes) (hab : q.aborted = false)
    (hroom : q.hasRoom item = false) :
    Waiting { q with putters := q.putters ++ [{ task := t, call := .put item rest }] } where
  distinct := by
    have hperm : (t :: q.waiters.map Waiter.task).Perm
        (((q.putters ++ [(⟨t, .put item rest, false, false⟩ : Waiter)]) ++ q.getters).map
          Waiter.task) := by
      rw [waiters, List.map_append, List.map_append, List.map_append, List.append_assoc]
      exact List.perm_middle.symm
    exact hperm.nodup (nodup_insert h hfree)
  putter := by
    intro w hw
    rcases List.mem_append.mp hw with hold | hnew
    · exact h.putter w hold
    · rw [List.mem_singleton.mp hnew]
      exact ⟨item, rest, rfl, hwhole, fun _ => ⟨hab, hroom⟩⟩
  getter := h.getter

theorem Waiting.suspendGet (h : Waiting q) (hfree : q.busy t = false)
    (hempty : q.items = [] ∧ q.closed = false ∧ q.aborted = false) :
    Waiting { q with getters := q.getters ++ [{ task := t, call := .get }] } where
  distinct := by
    have hperm : (t :: q.waiters.map Waiter.task).Perm
        ((q.putters ++ (q.getters ++ [(⟨t, .get, false, false⟩ : Waiter)])).map Waiter.task) := by
      rw [← List.append_assoc, List.map_append]
      exact (List.perm_append_singleton _ _).symm
    exact hperm.nodup (nodup_insert h hfree)
  putter := h.putter
  getter := by
    intro w hw
    rcases List.mem_append.mp hw with hold | hnew
    · exact h.getter w hold
    · rw [List.mem_singleton.mp hnew]
      exact ⟨rfl, fun _ => hempty⟩

/-- A task that resumes waits no more. -/
theorem Waiting.leave (h : Waiting q) : Waiting (q.leave t) where
  distinct := by
    refine List.Nodup.sublist (List.Sublist.map _ ?_) h.distinct
    exact List.filter_sublist.append List.filter_sublist
  putter := fun w hw => h.putter w (List.mem_of_mem_filter hw)
  getter := fun w hw => h.getter w (List.mem_of_mem_filter hw)

theorem busy_leave : (q.leave t).busy t = false := by
  refine busy_eq_false_iff.mpr fun w hw => ?_
  rcases List.mem_append.mp hw with hp | hg
  · exact of_decide_eq_true (List.mem_filter.mp hp).2
  · exact of_decide_eq_true (List.mem_filter.mp hg).2

/-! ## What is owed -/

/-- The pieces a suspended call still has to put. -/
def Waiter.pending (w : Waiter) : List Item :=
  match w.call with
  | .put item rest => item :: rest
  | .get => []

def pendingBy (t : TaskId) (q : Ingress) : List Item :=
  q.putters.flatMap fun w => if w.task = t then w.pending else []

/-- **What a task asked for is accepted, in its hands, or waiting**, as long as the stream goes on
and the task is not cancelled. -/
def Owing (log : List Event) (q : Ingress) (hand : TaskId → List Item) : Prop :=
  q.aborted = false → ∀ t, .cancelled t ∉ log →
    askedBy t log = acceptedBy t log ++ (hand t ++ pendingBy t q)

/-- The hands of the only task that runs. -/
def inHand (t : TaskId) (items : List Item) (t' : TaskId) : List Item :=
  if t' = t then items else []

theorem pendingBy_eq_nil (hfree : q.busy t = false) : pendingBy t q = [] := by
  rw [pendingBy, List.flatMap_eq_nil_iff]
  intro w hw
  exact if_neg (busy_eq_false_iff.mp hfree w (List.mem_append_left _ hw))

theorem Owing.of_eq {q' : Ingress} {hand : TaskId → List Item} (h : Owing log q hand)
    (hab : q'.aborted = false → q.aborted = false)
    (hpending : ∀ t, pendingBy t q' = pendingBy t q) : Owing log q' hand := by
  intro hq' t ht
  rw [hpending]
  exact h (hab hq') t ht

/-- Futures that are marked done wait with the same pieces. -/
theorem pendingBy_map {q' : Ingress} (f : Waiter → Waiter)
    (hf : ∀ w, (f w).task = w.task ∧ (f w).call = w.call) (h : q'.putters = q.putters.map f)
    (t : TaskId) : pendingBy t q' = pendingBy t q := by
  rw [pendingBy, pendingBy, h, List.flatMap_map]
  congr 1
  funext w
  rw [(hf w).1, Waiter.pending, Waiter.pending, (hf w).2]

/-! ## Puts -/

theorem putAll_aborted (l : List Item) (hab : q.aborted = true) : q.putAll t l = ([], q) := by
  induction l with
  | nil => rfl
  | cons item rest ih => rw [putAll, if_pos hab, ih]

/-- **A put**, from any of its pieces on, keeps the tally, leaves nobody waiting who could go on,
and accounts for all its pieces. -/
theorem putAll_spec (t : TaskId) (l : List Item) :
    ∀ {log : List Event} {q : Ingress}, Tallied log q → Waiting q → Owing log q (inHand t l) →
      q.busy t = false → (∀ i ∈ l, i.Whole q.bounds.frameBytes) →
      Tallied (log ++ (q.putAll t l).1) (q.putAll t l).2 ∧ Waiting (q.putAll t l).2 ∧
        Owing (log ++ (q.putAll t l).1) (q.putAll t l).2 (inHand t []) := by
  induction l with
  | nil =>
    intro log q htally hwait howe _ _
    rw [putAll, List.append_nil]
    exact ⟨htally, hwait, howe⟩
  | cons item rest ih =>
    intro log q htally hwait howe hfree hwhole
    cases hab : q.aborted with
    | true =>
      rw [putAll_aborted _ hab, List.append_nil]
      refine ⟨htally, hwait, fun hnot => ?_⟩
      rw [hab] at hnot
      cases hnot
    | false =>
      have hab' : ¬ q.aborted = true := by rw [hab]; decide
      rw [putAll, if_neg hab']
      by_cases hroom : q.hasRoom item = true
      · -- the piece is queued
        rw [if_pos hroom]
        obtain ⟨items, haccept, -⟩ := accept_spec q item
        have hputters : (q.accept item).putters = q.putters := by rw [haccept]
        have hbounds : (q.accept item).bounds = q.bounds := by rw [haccept]
        have hfree' : (q.accept item).busy t = false := by
          refine busy_eq_false_iff.mpr fun w hw => ?_
          rw [waiters, haccept] at hw
          rcases List.mem_append.mp hw with hp | hg
          · exact busy_eq_false_iff.mp hfree w (List.mem_append_left _ hp)
          · obtain ⟨v, hv, rfl⟩ := mem_wake.mp hg
            exact busy_eq_false_iff.mp hfree v (List.mem_append_right _ hv)
        have howe' : Owing (log ++ [.accepted t item]) (q.accept item) (inHand t rest) := by
          intro _ t' ht'
          have hnot : Event.cancelled t' ∉ log := fun hmem => ht' (List.mem_append_left _ hmem)
          have hold := howe hab t' hnot
          rw [pendingBy, hputters, ← pendingBy]
          by_cases htt : t' = t
          · subst htt
            rw [inHand, if_pos rfl] at hold
            rw [inHand, if_pos rfl]
            simp [askedBy, acceptedBy, List.filterMap_append] at hold ⊢
            exact hold
          · rw [inHand, if_neg htt] at hold
            rw [inHand, if_neg htt]
            simp [askedBy, acceptedBy, List.filterMap_append, Ne.symm htt] at hold ⊢
            exact hold
        have hnext := ih (htally.accept (t := t) hab hroom (hwhole item List.mem_cons_self))
          hwait.accept howe' hfree'
          (by rw [hbounds]; exact fun i hi => hwhole i (List.mem_cons_of_mem _ hi))
        rw [List.append_assoc] at hnext
        exact hnext
      · -- it waits for room
        have hroom' : q.hasRoom item = false := by simpa using hroom
        rw [if_neg hroom, List.append_nil]
        refine ⟨htally.of_eq rfl rfl rfl rfl rfl, hwait.suspendPut hfree hwhole hab hroom', ?_⟩
        intro _ t' ht'
        have hold := howe hab t' ht'
        rw [pendingBy, List.flatMap_append, ← pendingBy]
        by_cases htt : t' = t
        · subst htt
          rw [inHand, if_pos rfl, pendingBy_eq_nil hfree] at hold
          rw [inHand, if_pos rfl, pendingBy_eq_nil hfree]
          simp [Waiter.pending] at hold ⊢
          exact hold
        · rw [inHand, if_neg htt] at hold
          rw [inHand, if_neg htt]
          simp [Ne.symm htt] at hold ⊢
          exact hold

theorem pieceBytes_pos (q : Ingress) : 0 < q.pieceBytes := by
  have hfit := q.bounds.frame_le_capacity
  have hlt := Nat.mod_lt q.bounds.capacity q.bounds.frame_pos
  rw [pieceBytes]
  omega

/-- The pieces of whole frames are whole frames that fit. -/
theorem pieces_whole (q : Ingress) {pcm : Bytes} (hpcm : q.bounds.frameBytes ∣ pcm.length) :
    ∀ i ∈ q.pieces pcm, i.Whole q.bounds.frameBytes := by
  have hdvd : q.bounds.frameBytes ∣ q.pieceBytes := Nat.dvd_sub_mod q.bounds.capacity
  intro i hi
  obtain ⟨block, hblock, rfl⟩ := List.mem_map.mp hi
  exact ⟨(Segment.length_of_mem_blocks q.pieceBytes_pos hblock).1,
    Segment.dvd_length_of_mem_blocks hpcm hdvd hblock⟩

/-! ## Gets and endings -/

/-- An event that moves no audio. -/
theorem Tallied.note {e : Event} (h : Tallied log q) (hlaw : Orderly log e)
    (haccepted : acceptedItems [e] = []) (hdelivered : deliveredItems [e] = [])
      (hab : e ≠ .aborted) :
    Tallied (log ++ [e]) q := by
  have hacc : acceptedItems (log ++ [e]) = acceptedItems log := by
    rw [acceptedItems_append, haccepted, List.append_nil]
  have hdel : deliveredItems (log ++ [e]) = deliveredItems log := by
    rw [deliveredItems_append, hdelivered, List.append_nil]
  refine ⟨h.bytes_le, h.bytes_eq, h.boundary, h.cleared, ?_, ?_, h.queued, ?_,
    History.lawful_concat.mpr ⟨h.lawful, hlaw⟩, ?_⟩
  · rw [hacc, hdel]
    exact h.accounted
  · rw [hacc, hdel]
    exact h.behind
  · rw [hdel]
    exact h.delivered
  · rw [List.mem_append, List.mem_singleton, h.abort_mem]
    exact or_iff_left fun heq => hab heq.symm

theorem Owing.note {e : Event} {hand : TaskId → List Item} (h : Owing log q hand)
    (hasked : ∀ t, askedBy t [e] = []) (haccepted : ∀ t, acceptedBy t [e] = []) :
    Owing (log ++ [e]) q hand := by
  intro hab t ht
  have hold := h hab t fun hmem => ht (List.mem_append_left _ hmem)
  have hask : askedBy t (log ++ [e]) = askedBy t log ++ askedBy t [e] := List.filterMap_append
  have hacc : acceptedBy t (log ++ [e]) = acceptedBy t log ++ acceptedBy t [e] :=
    List.filterMap_append
  rw [hask, hacc, hasked, haccepted, List.append_nil, List.append_nil]
  exact hold

/-- **A get** delivers the first item, tells the end, or waits where there is neither. -/
theorem getItem_spec (t : TaskId) (htally : Tallied log q) (hwait : Waiting q)
    (howe : Owing log q (inHand t [])) (hfree : q.busy t = false) :
    Tallied (log ++ (q.getItem t).1) (q.getItem t).2 ∧ Waiting (q.getItem t).2 ∧
      Owing (log ++ (q.getItem t).1) (q.getItem t).2 (inHand t []) := by
  rw [getItem]
  split_ifs with hempty hab
  · rw [List.append_nil]
    exact ⟨htally.of_eq rfl rfl rfl rfl rfl, hwait.suspendGet hfree hempty, howe⟩
  · exact ⟨htally.note (htally.abort_mem.mpr hab) rfl rfl (by simp), hwait,
      howe.note (fun _ => rfl) (fun _ => rfl)⟩
  · have hab' : q.aborted = false := by simpa using hab
    have hnotmem : Event.aborted ∉ log := fun hmem => hab (htally.abort_mem.mp hmem)
    -- a getter is left waiting only while nothing is queued
    have hwoken : ∀ q' : Ingress, q.items ≠ [] → q'.putters = wake q.putters →
        q'.getters = q.getters → q'.bounds = q.bounds → Waiting q' := by
      intro q' hne hputters hgetters hbounds
      refine hwait.update (fun w => { w with done := true }) id (fun w => ⟨rfl, rfl⟩)
        (fun w => ⟨rfl, rfl⟩) hputters (hgetters.trans (kept q.getters)) hbounds ?_ ?_
      · intro w _ hdone
        cases hdone
      · intro w _ hdone
        exact ⟨hdone, fun hnil => absurd hnil hne⟩
    split
    · next hnil =>
      refine ⟨htally.note ⟨hnotmem, ?_⟩ rfl rfl (by simp), hwait,
        howe.note (fun _ => rfl) (fun _ => rfl)⟩
      have hstream := htally.accounted hab'
      rwa [hnil, stream_nil, List.append_nil] at hstream
    · next items hitems =>
      refine ⟨htally.deliver hab' hitems rfl rfl (Nat.sub_zero _).symm (by simp) hab',
        hwoken _ (by rw [hitems]; simp) rfl rfl rfl, ?_⟩
      refine (howe.note (fun _ => rfl) (fun _ => rfl)).of_eq (fun h => h) ?_
      exact pendingBy_map (fun w => { w with done := true }) (fun w => ⟨rfl, rfl⟩) rfl
    · next data items hitems =>
      refine ⟨htally.deliver hab' hitems rfl rfl rfl (by simp) hab',
        hwoken _ (by rw [hitems]; simp) rfl rfl rfl, ?_⟩
      refine (howe.note (fun _ => rfl) (fun _ => rfl)).of_eq (fun h => h) ?_
      exact pendingBy_map (fun w => { w with done := true }) (fun w => ⟨rfl, rfl⟩) rfl

/-- Cancelling a task marks its future and changes nothing else. -/
theorem cancelTask_spec (t : TaskId) {hand : TaskId → List Item} (htally : Tallied log q)
    (hwait : Waiting q) (howe : Owing log q hand) :
    Tallied log (q.cancelTask t) ∧ Waiting (q.cancelTask t) ∧ Owing log (q.cancelTask t) hand := by
  set mark : Waiter → Waiter :=
    fun w => if w.task = t then { w with done := true, cancelled := true } else w with hmark
  have hkeep : ∀ w, (mark w).task = w.task ∧ (mark w).call = w.call := by
    intro w
    rw [hmark]
    dsimp only
    split_ifs <;> exact ⟨rfl, rfl⟩
  have hdone : ∀ w, (mark w).done = false → w.done = false := by
    intro w hw
    rw [hmark] at hw
    dsimp only at hw
    split_ifs at hw
    exact hw
  refine ⟨htally.of_eq rfl rfl rfl rfl rfl, ?_, howe.of_eq (fun h => h)
    (pendingBy_map mark hkeep rfl)⟩
  exact hwait.update mark mark hkeep hkeep rfl rfl rfl
    (fun w _ hw => ⟨hdone w hw, fun item hab hno => ⟨hab, hno⟩⟩)
    (fun w _ hw => ⟨hdone w hw, fun hi hc hab => ⟨hi, hc, hab⟩⟩)

theorem close_spec {hand : TaskId → List Item} (htally : Tallied log q) (hwait : Waiting q)
    (howe : Owing log q hand) :
    Tallied log q.close ∧ Waiting q.close ∧ Owing log q.close hand := by
  refine ⟨htally.of_eq rfl rfl rfl rfl rfl, ?_, howe⟩
  refine hwait.update id (fun w => { w with done := true }) (fun w => ⟨rfl, rfl⟩)
    (fun w => ⟨rfl, rfl⟩)
    (kept q.putters) rfl rfl (fun w _ hw => ⟨hw, fun item hab hno => ⟨hab, hno⟩⟩) (fun w _ hw => ?_)
  cases hw

/-- An abort discards what is queued and wakes everybody. -/
theorem abort_spec {hand : TaskId → List Item} (htally : Tallied log q) (hwait : Waiting q) :
    Tallied (log ++ [.aborted]) q.abort ∧ Waiting q.abort ∧
      Owing (log ++ [.aborted]) q.abort hand := by
  set q₁ : Ingress := { q with aborted := true, items := [] }.cancelSession with hq₁
  -- cancelling the session changes the marks only
  obtain ⟨f, hf, hputters, hgetters, hrest⟩ : ∃ f : Waiter → Waiter,
      (∀ w, (f w).task = w.task ∧ (f w).call = w.call) ∧ q₁.putters = q.putters.map f ∧
        q₁.getters = q.getters.map f ∧ q₁.bounds = q.bounds ∧ q₁.items = [] ∧ q₁.bytes = q.bytes ∧
        q₁.aborted = true := by
    rw [hq₁, cancelSession]
    cases q.session with
    | none => exact ⟨id, fun w => ⟨rfl, rfl⟩, kept _, kept _, rfl, rfl, rfl, rfl⟩
    | some t =>
      refine ⟨_, fun w => ?_, rfl, rfl, rfl, rfl, rfl, rfl⟩
      split_ifs <;> exact ⟨rfl, rfl⟩
  obtain ⟨hbounds, hitems, hbytes, hab⟩ := hrest
  have habort : q.abort = { q₁ with putters := wake q₁.putters, getters := wake q₁.getters } := rfl
  have hdel : deliveredItems (log ++ [.aborted]) = deliveredItems log := by simp [deliveredItems]
  have hacc : acceptedItems (log ++ [.aborted]) = acceptedItems log := by simp [acceptedItems]
  have hnot : q.abort.aborted ≠ false := by
    rw [habort]
    show q₁.aborted ≠ false
    rw [hab]
    decide
  refine ⟨⟨?_, fun h => absurd h hnot, fun h => absurd h hnot, fun _ => hitems,
    fun h => absurd h hnot, ?_, ?_, ?_, History.lawful_concat.mpr ⟨htally.lawful, trivial⟩, ?_⟩, ?_,
    fun h => absurd h hnot⟩
  · show q₁.bytes ≤ q₁.bounds.capacity
    rw [hbytes, hbounds]
    exact htally.bytes_le
  · rw [hdel, hacc]
    exact htally.behind
  · show ∀ item ∈ q₁.items, _
    rw [hitems]
    simp
  · rw [hdel]
    show ∀ item ∈ deliveredItems log, item.Whole q₁.bounds.frameBytes
    rw [hbounds]
    exact htally.delivered
  · show _ ↔ q₁.aborted = true
    simp [hab]
  · refine hwait.update (fun w => { f w with done := true })
      (fun w => { f w with done := true }) hf hf
      ?_ ?_ hbounds (fun w _ hw => ?_) (fun w _ hw => ?_)
    · rw [habort]
      show wake q₁.putters = _
      rw [hputters, wake, List.map_map]
      rfl
    · rw [habort]
      show wake q₁.getters = _
      rw [hgetters, wake, List.map_map]
      rfl
    · cases hw
    · cases hw

/-! ## Calls -/

/-- A task has what its one waiter has. -/
theorem pendingBy_of_mem {ws : List Waiter} (hd : (ws.map Waiter.task).Nodup) {w : Waiter}
    (hw : w ∈ ws) : (ws.flatMap fun v => if v.task = w.task then v.pending else [])
      = w.pending := by
  induction ws with
  | nil => cases hw
  | cons v rest ih =>
    rw [List.map_cons, List.nodup_cons] at hd
    rw [List.flatMap_cons]
    rcases List.mem_cons.mp hw with rfl | hmem
    · have hothers : (rest.flatMap fun v => if v.task = w.task then v.pending else []) = [] := by
        rw [List.flatMap_eq_nil_iff]
        intro v hv
        refine if_neg fun heq => hd.1 ?_
        rw [← heq]
        exact List.mem_map_of_mem hv
      rw [if_pos rfl, hothers, List.append_nil]
    · have hne : v.task ≠ w.task := by
        intro heq
        rw [heq] at hd
        exact hd.1 (List.mem_map_of_mem hmem)
      rw [if_neg hne, ih hd.2 hmem, List.nil_append]

/-- Leaving the list takes nothing from the other tasks. -/
theorem pendingBy_leave {t' : TaskId} (hne : t' ≠ t) :
    pendingBy t' (q.leave t) = pendingBy t' q := by
  rw [pendingBy, pendingBy, leave]
  dsimp only
  induction q.putters with
  | nil => rfl
  | cons w rest ih =>
    rw [List.filter_cons, List.flatMap_cons, ← ih]
    by_cases hwt : w.task = t
    · rw [if_neg (by simp [hwt]), if_neg (fun h => hne (h.symm.trans hwt)), List.nil_append]
    · rw [if_pos (by simp [hwt]), List.flatMap_cons]

/-- A task that resumes takes its pieces into its hands. -/
theorem Owing.resume {hand : List Item} (howe : Owing log q (inHand t []))
    (hpending : pendingBy t q = hand) : Owing log (q.leave t) (inHand t hand) := by
  intro hab t' ht'
  have hold := howe hab t' ht'
  by_cases htt : t' = t
  · subst htt
    rw [inHand, if_pos rfl] at hold
    rw [inHand, if_pos rfl, pendingBy_eq_nil busy_leave, hold, hpending, List.nil_append,
      List.append_nil]
  · rw [inHand, if_neg htt] at hold
    rw [inHand, if_neg htt, pendingBy_leave htt]
    exact hold

/-- A call begins: its pieces are asked for, and in the hands of the task. -/
theorem asked_spec (t : TaskId) (items : List Item) :
    ∀ {log : List Event} (hand : List Item), Tallied log q → Owing log q (inHand t hand) →
      pendingBy t q = [] → Tallied (log ++ items.map (.asked t)) q ∧
        Owing (log ++ items.map (.asked t)) q (inHand t (hand ++ items)) := by
  induction items with
  | nil =>
    intro log hand htally howe _
    rw [List.map_nil, List.append_nil, List.append_nil]
    exact ⟨htally, howe⟩
  | cons item rest ih =>
    intro log hand htally howe hnone
    have hnext := ih (hand ++ [item]) (htally.note (e := .asked t item) trivial rfl rfl (by simp))
      (by
        intro hab t' ht'
        have hold := howe hab t' fun hmem => ht' (List.mem_append_left _ hmem)
        by_cases htt : t' = t
        · subst htt
          rw [inHand, if_pos rfl, hnone] at hold
          rw [inHand, if_pos rfl, hnone]
          simp [askedBy, acceptedBy, List.filterMap_append] at hold ⊢
          rw [hold, List.append_assoc]
        · rw [inHand, if_neg htt] at hold
          rw [inHand, if_neg htt]
          simp [askedBy, acceptedBy, List.filterMap_append, Ne.symm htt] at hold ⊢
          exact hold) hnone
    simpa using hnext

/-- The frames a `put` is given are whole: its callers cut them so. -/
def Action.Whole (frameBytes : ℕ) : Action → Prop
  | .put _ pcm => frameBytes ∣ pcm.length
  | _ => True

/-- **One action** keeps the queue and the log tallied, leaves nobody waiting who could go on, and
loses nothing a task has asked for. -/
theorem next_spec {a : Action} {events : List Event} {q' : Ingress}
    (ha : a.Whole q.bounds.frameBytes)
    (hnext : q.next a = some (events, q')) (htally : Tallied log q) (hwait : Waiting q)
    (howe : Owing log q fun _ => []) :
    Tallied (log ++ events) q' ∧ Waiting q' ∧ Owing (log ++ events) q' fun _ => [] := by
  have hidle : ∀ t, inHand t [] = fun _ => [] := fun t => funext fun t' => ite_self _
  cases a with
  | put t pcm =>
    rw [next] at hnext
    split_ifs at hnext with hbusy
    obtain ⟨rfl, rfl⟩ := Prod.mk.inj (Option.some.inj hnext)
    have hfree : q.busy t = false := by simpa using hbusy
    rw [← hidle t] at howe
    obtain ⟨htally', howe'⟩ := asked_spec t (q.pieces pcm) [] htally howe (pendingBy_eq_nil hfree)
    have hput := putAll_spec t (q.pieces pcm) htally' hwait howe' hfree (pieces_whole q ha)
    rw [hidle, List.append_assoc] at hput
    exact hput
  | putBoundary t =>
    rw [next] at hnext
    split_ifs at hnext with hbusy
    obtain ⟨rfl, rfl⟩ := Prod.mk.inj (Option.some.inj hnext)
    have hfree : q.busy t = false := by simpa using hbusy
    rw [← hidle t] at howe
    obtain ⟨htally', howe'⟩ := asked_spec t [.boundary] [] htally howe (pendingBy_eq_nil hfree)
    have hput := putAll_spec t [.boundary] htally' hwait howe' hfree (by
      intro i hi
      rw [List.mem_singleton.mp hi]
      trivial)
    rw [hidle, List.append_assoc] at hput
    exact hput
  | get t =>
    rw [next] at hnext
    split_ifs at hnext with hbusy
    have hfree : q.busy t = false := by simpa using hbusy
    have hget := getItem_spec t htally hwait (by rw [hidle]; exact howe) hfree
    rw [Option.some.inj hnext, hidle] at hget
    exact hget
  | resume t =>
    rw [next] at hnext
    split at hnext
    · cases hnext
    · next w hfind =>
      have hmem := List.mem_of_find?_eq_some hfind
      have htask : w.task = t := by simpa using List.find?_some hfind
      have htally' : Tallied log (q.leave t) := htally.of_eq rfl rfl rfl rfl rfl
      -- what the task has in hand is what its waiter had
      have hpending : pendingBy t q = w.pending := by
        rcases List.mem_append.mp hmem with hp | hg
        · rw [pendingBy, ← htask]
          exact pendingBy_of_mem (hwait.distinct.sublist (List.Sublist.map _
            (List.sublist_append_left _ _))) hp
        · have hcall := (hwait.getter w hg).1
          have hnone : pendingBy t q = [] := by
            rw [pendingBy, List.flatMap_eq_nil_iff]
            intro v hv
            refine if_neg fun heq => ?_
            have hd := hwait.distinct
            rw [waiters, List.map_append] at hd
            exact (List.nodup_append.mp hd).2.2 _ (List.mem_map_of_mem hv) _
              (List.mem_map_of_mem hg) (heq.trans htask.symm)
          rw [hnone, Waiter.pending, hcall]
      split_ifs at hnext with hdone hcancelled
      · -- it finds itself cancelled
        obtain ⟨rfl, rfl⟩ := Prod.mk.inj (Option.some.inj hnext)
        refine ⟨htally'.note trivial rfl rfl (by simp), hwait.leave, ?_⟩
        intro hab t' ht'
        have hne : t' ≠ t := fun heq => ht' (by simp [heq])
        have hold := howe.note (e := .cancelled t) (fun _ => rfl) (fun _ => rfl) hab t' ht'
        rw [pendingBy_leave hne]
        exact hold
      · rw [← hidle t] at howe
        have howe' := howe.resume hpending
        split at hnext
        · next item rest hcall =>
          rw [Waiter.pending, hcall] at howe'
          have hput := putAll_spec t (item :: rest) htally' hwait.leave howe' busy_leave (by
            rcases List.mem_append.mp hmem with hp | hg
            · obtain ⟨item', rest', hcall', hwhole, -⟩ := hwait.putter w hp
              rw [hcall] at hcall'
              cases hcall'
              exact hwhole
            · rw [(hwait.getter w hg).1] at hcall
              cases hcall)
          rw [Option.some.inj hnext, hidle] at hput
          exact hput
        · next hcall =>
          rw [Waiter.pending, hcall] at howe'
          have hget := getItem_spec t htally' hwait.leave howe' busy_leave
          rw [Option.some.inj hnext, hidle] at hget
          exact hget
  | serve t =>
    obtain ⟨rfl, rfl⟩ := Prod.mk.inj (Option.some.inj hnext)
    rw [List.append_nil, serve]
    have htally' : Tallied log { q with session := some t } := htally.of_eq rfl rfl rfl rfl rfl
    have hwait' : Waiting { q with session := some t } :=
      ⟨hwait.distinct, hwait.putter, hwait.getter⟩
    dsimp only
    split_ifs
    · exact cancelTask_spec t htally' hwait' howe
    · exact ⟨htally', hwait', howe⟩
  | close =>
    obtain ⟨rfl, rfl⟩ := Prod.mk.inj (Option.some.inj hnext)
    rw [List.append_nil]
    exact close_spec htally hwait howe
  | abort =>
    obtain ⟨rfl, rfl⟩ := Prod.mk.inj (Option.some.inj hnext)
    exact abort_spec htally hwait
  | cancel t =>
    obtain ⟨rfl, rfl⟩ := Prod.mk.inj (Option.some.inj hnext)
    rw [List.append_nil]
    exact cancelTask_spec t htally hwait howe

/-! ## Boundaries -/

def askedBoundaries (log : List Event) : ℕ :=
  log.countP fun | .asked _ .boundary => true | _ => false

def deliveredBoundaries (log : List Event) : ℕ :=
  log.countP fun | .delivered _ .boundary => true | _ => false

/-- The boundaries in the queue, and in the hands of the waiting putters. -/
def boundaries (q : Ingress) : ℕ :=
  q.items.count .boundary + (q.waiters.map fun w => w.pending.count .boundary).sum

@[simp] theorem askedBoundaries_append (l l' : List Event) :
    askedBoundaries (l ++ l') = askedBoundaries l + askedBoundaries l' := List.countP_append

@[simp] theorem deliveredBoundaries_append (l l' : List Event) :
    deliveredBoundaries (l ++ l') = deliveredBoundaries l + deliveredBoundaries l' :=
  List.countP_append

/-- What a getter is told. -/
inductive Told (t : TaskId) : List Event → Prop
  | waits : Told t []
  | delivered (item : Item) : Told t [.delivered t item]
  | ended : Told t [.ended t]
  | refused : Told t [.refused t]
  | cancelled : Told t [.cancelled t]

theorem getItem_told (t : TaskId) (q : Ingress) : Told t (q.getItem t).1 := by
  rw [getItem]
  split_ifs
  · exact .waits
  · exact .refused
  · split
    · exact .ended
    · exact .delivered .boundary
    · exact .delivered (.chunk _)

/-- Putting only ever leaves `accepted` behind. -/
theorem putAll_accepted (t : TaskId) (items : List Item) :
    ∀ q : Ingress, ∀ e ∈ (q.putAll t items).1, ∃ item, e = .accepted t item := by
  induction items with
  | nil => exact fun q e he => absurd he (by simp [putAll])
  | cons item rest ih =>
    intro q
    rw [putAll]
    split_ifs with hab hroom
    · exact ih q
    · intro e he
      rcases List.mem_cons.mp he with rfl | hrest
      · exact ⟨item, rfl⟩
      · exact ih _ e hrest
    · exact fun e he => absurd he (by simp)

/-- Events that tell no getter anything. -/
def Quiet (events : List Event) : Prop := ∀ e ∈ events, ∀ t, e ≠ .ended t ∧ ∀ item,
    e ≠ .delivered t item

theorem quiet_putAll (t : TaskId) (items : List Item) (q : Ingress) :
    Quiet (q.putAll t items).1 := by
  intro e he t'
  obtain ⟨item, rfl⟩ := putAll_accepted t items q e he
  exact ⟨nofun, nofun⟩

theorem quiet_asked (t : TaskId) (items : List Item) : Quiet (items.map (.asked t)) := by
  intro e he t'
  obtain ⟨item, -, rfl⟩ := List.mem_map.mp he
  exact ⟨nofun, nofun⟩

theorem Quiet.append {l l' : List Event} (h : Quiet l) (h' : Quiet l') : Quiet (l ++ l') := by
  intro e he
  rcases List.mem_append.mp he with hl | hl'
  · exact h e hl
  · exact h' e hl'

/-- Only a `get`, begun or woken, tells anything, and it tells its own task. -/
theorem next_told {a : Action} {events : List Event} {q' : Ingress}
    (hnext : q.next a = some (events, q')) :
    Quiet events ∨ ∃ t, (a = .get t ∨ a = .resume t) ∧ Told t events := by
  cases a with
  | put t pcm =>
    rw [next] at hnext
    split_ifs at hnext
    have hquiet := quiet_putAll t (q.pieces pcm) q
    generalize q.putAll t (q.pieces pcm) = result at hnext hquiet
    obtain ⟨rfl, -⟩ := Prod.mk.inj (Option.some.inj hnext)
    exact .inl ((quiet_asked t _).append hquiet)
  | putBoundary t =>
    rw [next] at hnext
    split_ifs at hnext
    have hquiet := quiet_putAll t [.boundary] q
    generalize q.putAll t [.boundary] = result at hnext hquiet
    obtain ⟨rfl, -⟩ := Prod.mk.inj (Option.some.inj hnext)
    exact .inl ((quiet_asked t [.boundary]).append hquiet)
  | get t =>
    rw [next] at hnext
    split_ifs at hnext
    have hget := getItem_told t q
    rw [Option.some.inj hnext] at hget
    exact .inr ⟨t, .inl rfl, hget⟩
  | resume t =>
    rw [next] at hnext
    split at hnext
    · cases hnext
    · split_ifs at hnext
      · obtain ⟨rfl, -⟩ := Prod.mk.inj (Option.some.inj hnext)
        exact .inr ⟨t, .inr rfl, .cancelled⟩
      · split at hnext
        · next item rest hcall =>
          have hquiet := quiet_putAll t (item :: rest) (q.leave t)
          rw [Option.some.inj hnext] at hquiet
          exact .inl hquiet
        · have hget := getItem_told t (q.leave t)
          rw [Option.some.inj hnext] at hget
          exact .inr ⟨t, .inr rfl, hget⟩
  | serve t =>
    obtain ⟨rfl, -⟩ := Prod.mk.inj (Option.some.inj hnext)
    exact .inl nofun
  | close =>
    obtain ⟨rfl, -⟩ := Prod.mk.inj (Option.some.inj hnext)
    exact .inl nofun
  | abort =>
    obtain ⟨rfl, -⟩ := Prod.mk.inj (Option.some.inj hnext)
    refine .inl fun e he t => ?_
    rw [List.mem_singleton.mp he]
    exact ⟨nofun, nofun⟩
  | cancel t =>
    obtain ⟨rfl, -⟩ := Prod.mk.inj (Option.some.inj hnext)
    exact .inl nofun

/-- How many boundaries a call asks for. -/
def Action.asks : Action → ℕ
  | .putBoundary _ => 1
  | _ => 0

theorem next_asked {a : Action} {events : List Event} {q' : Ingress}
    (hnext : q.next a = some (events, q')) :
    askedBoundaries events = a.asks := by
  have hput : ∀ t items (q : Ingress), askedBoundaries (q.putAll t items).1 = 0 := by
    intro t items q
    refine List.countP_eq_zero.mpr fun e he => ?_
    obtain ⟨item, rfl⟩ := putAll_accepted t items q e he
    exact Bool.false_ne_true
  have htold : ∀ {t events}, Told t events → askedBoundaries events = 0 := by
    intro t events h
    cases h <;> rfl
  cases a with
  | put t pcm =>
    rw [next] at hnext
    split_ifs at hnext
    have hnone := hput t (q.pieces pcm) q
    generalize q.putAll t (q.pieces pcm) = result at hnext hnone
    obtain ⟨rfl, -⟩ := Prod.mk.inj (Option.some.inj hnext)
    rw [askedBoundaries_append, hnone]
    exact List.countP_eq_zero.mpr (by simp [pieces])
  | putBoundary t =>
    rw [next] at hnext
    split_ifs at hnext
    have hnone := hput t [.boundary] q
    generalize q.putAll t [.boundary] = result at hnext hnone
    obtain ⟨rfl, -⟩ := Prod.mk.inj (Option.some.inj hnext)
    rw [← List.singleton_append, askedBoundaries_append, hnone]
    rfl
  | get t =>
    rw [next] at hnext
    split_ifs at hnext
    have hget := getItem_told t q
    rw [Option.some.inj hnext] at hget
    exact htold hget
  | resume t =>
    rw [next] at hnext
    split at hnext
    · cases hnext
    · split_ifs at hnext
      · obtain ⟨rfl, -⟩ := Prod.mk.inj (Option.some.inj hnext)
        rfl
      · split at hnext
        · next item rest hcall =>
          have hnone := hput t (item :: rest) (q.leave t)
          rw [Option.some.inj hnext] at hnone
          exact hnone
        · have hget := getItem_told t (q.leave t)
          rw [Option.some.inj hnext] at hget
          exact htold hget
  | serve t =>
    obtain ⟨rfl, -⟩ := Prod.mk.inj (Option.some.inj hnext)
    rfl
  | close =>
    obtain ⟨rfl, -⟩ := Prod.mk.inj (Option.some.inj hnext)
    rfl
  | abort =>
    obtain ⟨rfl, -⟩ := Prod.mk.inj (Option.some.inj hnext)
    rfl
  | cancel t =>
    obtain ⟨rfl, -⟩ := Prod.mk.inj (Option.some.inj hnext)
    rfl

theorem boundaries_wake (ws : List Waiter) :
    (wake ws).map (fun w => w.pending.count .boundary)
      = ws.map fun w => w.pending.count .boundary := by
  rw [wake, List.map_map]
  rfl

theorem boundaries_accept (q : Ingress) (item : Item) :
    (q.accept item).boundaries = q.boundaries + [item].count .boundary := by
  obtain ⟨items, haccept, hqueues⟩ := accept_spec q item
  rw [haccept, boundaries, boundaries]
  simp only [waiters, List.map_append, List.sum_append, boundaries_wake, hqueues.boundaries]
  omega

/-- Putting owes no more than it was given. -/
theorem boundaries_putAll (t : TaskId) (items : List Item) :
    ∀ q : Ingress, (q.putAll t items).2.boundaries ≤ q.boundaries + items.count .boundary := by
  induction items with
  | nil => exact fun q => le_rfl
  | cons item rest ih =>
    intro q
    have hcount : (item :: rest).count .boundary = [item].count .boundary + rest.count .boundary :=
      @List.count_append _ _ _ [item] rest
    rw [putAll]
    split_ifs with hab hroom
    · have hrest := ih q
      omega
    · have hrest := ih (q.accept item)
      rw [boundaries_accept] at hrest
      dsimp only
      omega
    · have hwaits : ({ task := t, call := .put item rest } : Waiter).pending = item :: rest := rfl
      simp only [boundaries, waiters, List.map_append, List.sum_append, List.map_cons, List.map_nil,
        List.sum_cons, List.sum_nil, hwaits]
      omega

theorem boundaries_getItem (t : TaskId) (q : Ingress) :
    deliveredBoundaries (q.getItem t).1 + (q.getItem t).2.boundaries ≤ q.boundaries := by
  rw [getItem]
  split_ifs with hempty hab
  · have hwaits : ({ task := t, call := .get } : Waiter).pending = [] := rfl
    simp [deliveredBoundaries, boundaries, waiters, hwaits]
  · simp [deliveredBoundaries]
  · split
    · simp [deliveredBoundaries]
    · next items hitems =>
      simp only [boundaries, waiters, hitems, List.map_append, List.sum_append, boundaries_wake,
        List.count_cons_self, deliveredBoundaries, List.countP_singleton]
      simp only [if_true]
      omega
    · next data items hitems =>
      simp only [boundaries, waiters, hitems, List.map_append, List.sum_append, boundaries_wake,
        deliveredBoundaries, List.countP_singleton]
      simp

theorem sum_filter_le (ws : List Waiter) (p : Waiter → Bool) (f : Waiter → ℕ) :
    ((ws.filter p).map f).sum ≤ (ws.map f).sum := by
  induction ws with
  | nil => exact le_rfl
  | cons w ws ih =>
    rw [List.filter_cons]
    split_ifs
    · rw [List.map_cons, List.map_cons, List.sum_cons, List.sum_cons]
      exact Nat.add_le_add_left ih _
    · rw [List.map_cons, List.sum_cons]
      exact ih.trans (Nat.le_add_left _ _)

/-- What a waiter that leaves has in its hands is no longer counted. -/
theorem sum_filter_add_le (ws : List Waiter) (p : Waiter → Bool) (f : Waiter → ℕ) {w : Waiter}
    (hw : w ∈ ws) (hp : p w = false) : ((ws.filter p).map f).sum + f w ≤ (ws.map f).sum := by
  induction ws with
  | nil => cases hw
  | cons v ws ih =>
    rw [List.filter_cons, List.map_cons, List.sum_cons]
    rcases List.mem_cons.mp hw with rfl | hw
    · rw [if_neg (by rw [hp]; decide)]
      have hrest := sum_filter_le ws p f
      omega
    · have hrest := ih hw
      split_ifs
      · rw [List.map_cons, List.sum_cons]
        omega
      · omega

theorem waiters_leave (q : Ingress) (t : TaskId) :
    (q.leave t).waiters = q.waiters.filter fun w => w.task ≠ t := by
  rw [leave, waiters, waiters, List.filter_append]

theorem boundaries_leave (q : Ingress) (t : TaskId) : (q.leave t).boundaries ≤ q.boundaries := by
  rw [boundaries, boundaries, waiters_leave]
  exact Nat.add_le_add_left (sum_filter_le _ _ _) _

theorem boundaries_cancelTask (q : Ingress) (t : TaskId) :
    (q.cancelTask t).boundaries = q.boundaries := by
  have hmark : ∀ ws : List Waiter, (ws.map fun w : Waiter =>
      if w.task = t then { w with done := true, cancelled := true } else w).map
        (fun w => w.pending.count .boundary) = ws.map fun w => w.pending.count .boundary := by
    intro ws
    rw [List.map_map]
    refine List.map_congr_left fun w _ => ?_
    show List.count Item.boundary (if w.task = t then _ else w).pending = _
    split_ifs <;> rfl
  rw [boundaries, boundaries, cancelTask, waiters, waiters, List.map_append, List.map_append, hmark,
    hmark]

/-- **No boundary is made up.** What is delivered was in the queue or in the hands of a putter, and
only a call for it brings one there. -/
theorem next_boundaries {a : Action} {events : List Event} {q' : Ingress}
    (hnext : q.next a = some (events, q')) :
    deliveredBoundaries events + q'.boundaries ≤ askedBoundaries events + q.boundaries := by
  -- what a put leaves behind counts for neither side
  have hput : ∀ t items (q : Ingress), deliveredBoundaries (q.putAll t items).1 = 0 := by
    intro t items q
    refine List.countP_eq_zero.mpr fun e he => ?_
    obtain ⟨item, rfl⟩ := putAll_accepted t items q e he
    exact Bool.false_ne_true
  have hchunks : ∀ t pcm, askedBoundaries ((q.pieces pcm).map (.asked t)) = 0
      ∧ deliveredBoundaries ((q.pieces pcm).map (.asked t)) = 0
      ∧ (q.pieces pcm).count .boundary = 0 := by
    intro t pcm
    refine ⟨List.countP_eq_zero.mpr ?_, List.countP_eq_zero.mpr ?_, List.count_eq_zero.mpr ?_⟩
    · simp [pieces]
    · simp [pieces]
    · simp [pieces]
  cases a with
  | put t pcm =>
    rw [next] at hnext
    split_ifs at hnext
    obtain ⟨rfl, rfl⟩ := Prod.mk.inj (Option.some.inj hnext)
    obtain ⟨hasked, hdelivered, hcount⟩ := hchunks t pcm
    have hle := boundaries_putAll t (q.pieces pcm) q
    rw [deliveredBoundaries_append, askedBoundaries_append, hput, hasked, hdelivered]
    omega
  | putBoundary t =>
    rw [next] at hnext
    split_ifs at hnext
    have hle := boundaries_putAll t [.boundary] q
    have hnone := hput t [.boundary] q
    have hone : [Item.boundary].count .boundary = 1 := rfl
    have hasked : askedBoundaries [.asked t .boundary] = 1 := rfl
    have hdelivered : deliveredBoundaries [.asked t .boundary] = 0 := rfl
    generalize q.putAll t [.boundary] = result at hnext hle hnone
    obtain ⟨rfl, rfl⟩ := Prod.mk.inj (Option.some.inj hnext)
    rw [← List.singleton_append, deliveredBoundaries_append, askedBoundaries_append, hnone, hasked,
      hdelivered]
    omega
  | get t =>
    rw [next] at hnext
    split_ifs at hnext
    have hle := boundaries_getItem t q
    rw [Option.some.inj hnext] at hle
    exact hle.trans (Nat.le_add_left _ _)
  | resume t =>
    rw [next] at hnext
    split at hnext
    · cases hnext
    · next w hfind =>
      split_ifs at hnext
      · cases hnext
        have hle := boundaries_leave q t
        exact (Nat.zero_add _).trans_le (hle.trans (Nat.le_add_left _ _))
      · split at hnext
        · next item rest hcall =>
          -- the pieces go from the hands of the waiter to the queue
          have hw := List.mem_of_find?_eq_some hfind
          have htask : w.task = t := by simpa using List.find?_some hfind
          have hpending : w.pending = item :: rest := by rw [Waiter.pending, hcall]
          have hle := boundaries_putAll t (item :: rest) (q.leave t)
          have hnone := hput t (item :: rest) (q.leave t)
          have hleave := sum_filter_add_le q.waiters (fun w => w.task ≠ t)
            (fun w => w.pending.count .boundary) hw (by simp [htask])
          rw [Option.some.inj hnext] at hle hnone
          dsimp only at hle hnone
          rw [hpending] at hleave
          have hq : (q.leave t).boundaries = q.items.count .boundary + ((q.waiters.filter
              fun w => w.task ≠ t).map fun w => w.pending.count .boundary).sum := by
            rw [boundaries, waiters_leave]
            rfl
          rw [boundaries.eq_def q]
          omega
        · have hle := boundaries_getItem t (q.leave t)
          have hleave := boundaries_leave q t
          rw [Option.some.inj hnext] at hle
          dsimp only at hle
          omega
  | serve t =>
    cases hnext
    rw [serve]
    dsimp only
    split_ifs
    · rw [boundaries_cancelTask]
      exact le_rfl
    · exact le_rfl
  | close =>
    cases hnext
    have hclose : q.close.boundaries = q.boundaries := by
      simp only [boundaries, close, waiters, List.map_append, boundaries_wake]
    rw [hclose]
    exact le_rfl
  | abort =>
    cases hnext
    have habort : q.abort.boundaries ≤ q.boundaries := by
      have hcancel : ∀ q : Ingress, q.cancelSession.boundaries = q.boundaries := by
        intro q
        rw [cancelSession]
        split
        · rfl
        · exact boundaries_cancelTask q _
      have hcleared := hcancel { q with aborted := true, items := [] }
      have hwake : q.abort.boundaries
          = ({ q with aborted := true, items := [] } : Ingress).cancelSession.boundaries := by
        simp only [boundaries, abort, waiters, List.map_append, boundaries_wake]
      rw [hwake, hcleared]
      simp only [boundaries, waiters, List.count_nil, Nat.zero_add]
      exact Nat.le_add_left _ _
    exact (Nat.zero_add _).trans_le (habort.trans (Nat.le_add_left _ _))
  | cancel t =>
    cases hnext
    rw [boundaries_cancelTask]
    exact le_rfl

theorem aborted_putAll (t : TaskId) (items : List Item) :
    ∀ q : Ingress, (q.putAll t items).2.aborted = q.aborted := by
  induction items with
  | nil => exact fun _ => rfl
  | cons item rest ih =>
    intro q
    have haccept : (q.accept item).aborted = q.aborted := by
      obtain ⟨items, heq, -⟩ := accept_spec q item
      rw [heq]
    rw [putAll]
    split_ifs
    · exact ih q
    · exact (ih _).trans haccept
    · rfl

theorem aborted_getItem (t : TaskId) (q : Ingress) : (q.getItem t).2.aborted = q.aborted := by
  rw [getItem]
  split_ifs
  · rfl
  · rfl
  · split <;> rfl

/-- **An abort is for good.** -/
theorem next_aborted {a : Action} {events : List Event} {q' : Ingress}
    (hnext : q.next a = some (events, q')) (hab : q.aborted = true) : q'.aborted = true := by
  cases a with
  | put t pcm =>
    rw [next] at hnext
    split_ifs at hnext
    obtain ⟨-, rfl⟩ := Prod.mk.inj (Option.some.inj hnext)
    exact (aborted_putAll t _ q).trans hab
  | putBoundary t =>
    rw [next] at hnext
    split_ifs at hnext
    obtain ⟨-, rfl⟩ := Prod.mk.inj (Option.some.inj hnext)
    exact (aborted_putAll t [.boundary] q).trans hab
  | get t =>
    rw [next] at hnext
    split_ifs at hnext
    have hget := aborted_getItem t q
    rw [Option.some.inj hnext] at hget
    exact hget.trans hab
  | resume t =>
    rw [next] at hnext
    split at hnext
    · cases hnext
    · split_ifs at hnext
      · obtain ⟨-, rfl⟩ := Prod.mk.inj (Option.some.inj hnext)
        exact hab
      · split at hnext
        · next item rest hcall =>
          have hput := aborted_putAll t (item :: rest) (q.leave t)
          rw [Option.some.inj hnext] at hput
          exact hput.trans hab
        · have hget := aborted_getItem t (q.leave t)
          rw [Option.some.inj hnext] at hget
          exact hget.trans hab
  | serve t =>
    obtain ⟨-, rfl⟩ := Prod.mk.inj (Option.some.inj hnext)
    rw [serve]
    dsimp only
    rw [if_pos hab]
    exact hab
  | close =>
    obtain ⟨-, rfl⟩ := Prod.mk.inj (Option.some.inj hnext)
    exact hab
  | abort =>
    obtain ⟨-, rfl⟩ := Prod.mk.inj (Option.some.inj hnext)
    show (Ingress.cancelSession _).aborted = true
    rw [cancelSession]
    cases q.session <;> rfl
  | cancel t =>
    obtain ⟨-, rfl⟩ := Prod.mk.inj (Option.some.inj hnext)
    exact hab

/-! ## Runs -/

/-- A queue and everything that happened at it. -/
structure Run where
  log : List Event
  queue : Ingress

/-- The queue of a connection, before anything happened. -/
def Run.init (bounds : Bounds) : Run := ⟨[], { bounds := bounds }⟩

/-- One action of one task, the tasks taking turns in any order. -/
def Run.Step (r r' : Run) : Prop :=
  ∃ a events, Action.Whole r.queue.bounds.frameBytes a ∧ r.queue.next a = some (events, r'.queue) ∧
    r'.log = r.log ++ events

/-- What holds of the queue, the log and the waiting tasks in every state. -/
structure Accounts (bounds : Bounds) (r : Run) : Prop where
  /-- The byte count stays within the capacity, and until an abort it is what is queued. -/
  bytes_le : r.queue.bytes ≤ bounds.capacity
  bytes_eq : r.queue.aborted = false → r.queue.bytes = queuedBytes r.queue.items
  /-- At most one boundary is queued. -/
  boundary : r.queue.items.count .boundary ≤ 1
  /-- Until an abort the stream accepted is the stream delivered and then the stream queued: the
  same bytes in the same order, and every boundary at its byte position. -/
  accounted : r.queue.aborted = false →
    stream (deliveredItems r.log) ++ stream r.queue.items = stream (acceptedItems r.log)
  /-- Whatever happens, what was delivered is the beginning of what was accepted. -/
  behind : stream (deliveredItems r.log) <+: stream (acceptedItems r.log)
  /-- Chunks are delivered as whole frames. -/
  frames : ∀ item ∈ deliveredItems r.log, item.Whole bounds.frameBytes
  /-- After an abort nothing is queued, accepted or delivered; the end is told only once everything
  accepted was delivered. -/
  cleared : r.queue.aborted = true → r.queue.items = []
  lawful : History.Lawful Orderly r.log
  abort_mem : .aborted ∈ r.log ↔ r.queue.aborted = true
  /-- A waiting putter has no room, or its future is done and it may resume. -/
  putters : ∀ w ∈ r.queue.putters, ∃ item rest, w.call = .put item rest ∧
    (w.done = true → (r.queue.next (.resume w.task)).isSome) ∧
    (w.done = false → r.queue.aborted = false ∧ r.queue.hasRoom item = false)
  /-- A waiting getter has nothing to get and no end to see, or it may resume. -/
  getters : ∀ w ∈ r.queue.getters, w.call = .get ∧
    (w.done = true → (r.queue.next (.resume w.task)).isSome) ∧
    (w.done = false → r.queue.items = [] ∧ r.queue.closed = false ∧ r.queue.aborted = false)
  /-- What a task asked to put is accepted in order, or is what its waiting call still holds. -/
  owed : r.queue.aborted = false → ∀ t, .cancelled t ∉ r.log →
    askedBy t r.log = acceptedBy t r.log ++ pendingBy t r.queue

/-! The bounds of the queue are set once. -/

theorem putAll_bounds (t : TaskId) (items : List Item) :
    ∀ q : Ingress, (q.putAll t items).2.bounds = q.bounds := by
  induction items with
  | nil => exact fun q => rfl
  | cons item rest ih =>
    intro q
    rw [putAll]
    split_ifs
    · exact ih q
    · obtain ⟨items, haccept, -⟩ := accept_spec q item
      show ((q.accept item).putAll t rest).2.bounds = q.bounds
      rw [ih, haccept]
    · rfl

theorem getItem_bounds (t : TaskId) (q : Ingress) : (q.getItem t).2.bounds = q.bounds := by
  rw [getItem]
  split_ifs
  · rfl
  · rfl
  · split <;> rfl

theorem cancelSession_bounds (q : Ingress) : q.cancelSession.bounds = q.bounds := by
  rw [cancelSession]
  cases q.session <;> rfl

theorem next_bounds {a : Action} {events : List Event} {q' : Ingress}
    (hnext : q.next a = some (events, q')) : q'.bounds = q.bounds := by
  cases a with
  | put t pcm =>
    rw [next] at hnext
    split_ifs at hnext
    obtain ⟨-, rfl⟩ := Prod.mk.inj (Option.some.inj hnext)
    exact putAll_bounds t _ q
  | putBoundary t =>
    rw [next] at hnext
    split_ifs at hnext
    obtain ⟨-, rfl⟩ := Prod.mk.inj (Option.some.inj hnext)
    exact putAll_bounds t [.boundary] q
  | get t =>
    rw [next] at hnext
    split_ifs at hnext
    have hget := getItem_bounds t q
    rwa [Option.some.inj hnext] at hget
  | resume t =>
    rw [next] at hnext
    split at hnext
    · cases hnext
    · next w hfind =>
      split_ifs at hnext
      · obtain ⟨-, rfl⟩ := Prod.mk.inj (Option.some.inj hnext)
        rfl
      · split at hnext
        · next item rest hcall =>
          have hput := putAll_bounds t (item :: rest) (q.leave t)
          rwa [Option.some.inj hnext] at hput
        · have hget := getItem_bounds t (q.leave t)
          rwa [Option.some.inj hnext] at hget
  | serve t =>
    obtain ⟨-, rfl⟩ := Prod.mk.inj (Option.some.inj hnext)
    rw [serve]
    dsimp only
    split_ifs <;> rfl
  | close =>
    obtain ⟨-, rfl⟩ := Prod.mk.inj (Option.some.inj hnext)
    rfl
  | abort =>
    obtain ⟨-, rfl⟩ := Prod.mk.inj (Option.some.inj hnext)
    exact cancelSession_bounds _
  | cancel t =>
    obtain ⟨-, rfl⟩ := Prod.mk.inj (Option.some.inj hnext)
    rfl

/-- A task whose future is done may resume. -/
theorem resume_isSome {w : Waiter} (hwait : Waiting q) (hw : w ∈ q.waiters)
    (hdone : w.done = true) :
    (q.next (.resume w.task)).isSome := by
  have hfind : q.waiters.find? (fun v => v.task = w.task) = some w := by
    cases hfound : q.waiters.find? (fun v => v.task = w.task) with
    | none => exact absurd hw fun hmem => by simpa using List.find?_eq_none.mp hfound w hmem
    | some v =>
      have hv := List.mem_of_find?_eq_some hfound
      have htask : v.task = w.task := by simpa using List.find?_some hfound
      rw [List.inj_on_of_nodup_map hwait.distinct hv hw htask]
  rw [next, hfind]
  dsimp only
  rw [if_neg (by rw [hdone]; decide)]
  split_ifs
  · rfl
  · split <;> rfl

/-- The queue of a run: what `next_spec` carries along. -/
def Sound (bounds : Bounds) (r : Run) : Prop :=
  r.queue.bounds = bounds ∧ Tallied r.log r.queue ∧ Waiting r.queue ∧
    Owing r.log r.queue fun _ => []

theorem sound_init (bounds : Bounds) : Sound bounds (Run.init bounds) := by
  refine ⟨rfl, ?_, ?_, ?_⟩
  · exact ⟨Nat.zero_le _, fun _ => rfl, fun _ => rfl, fun _ => rfl, fun _ => rfl, List.prefix_rfl,
      by simp [Run.init], by simp [Run.init, deliveredItems],
        History.lawful_nil, by simp [Run.init]⟩
  · exact ⟨by simp [Run.init, waiters], by simp [Run.init], by simp [Run.init]⟩
  · exact fun _ _ _ => rfl

theorem step_sound {bounds : Bounds} {r r' : Run} (h : Sound bounds r) (hstep : Run.Step r r') :
    Sound bounds r' := by
  obtain ⟨hb, htally, hwait, howe⟩ := h
  obtain ⟨a, events, ha, hnext, hlog⟩ := hstep
  have hspec := next_spec ha hnext htally hwait howe
  rw [← hlog] at hspec
  exact ⟨(next_bounds hnext).trans hb, hspec⟩

/-- **The ingress queue loses and reorders nothing**, over any interleaving of its callers. -/
theorem ingress_accounts {bounds : Bounds} {r : Run}
    (h : StepSystem.Reachable Run.Step (Run.init bounds) r) : Accounts bounds r := by
  obtain ⟨hb, htally, hwait, howe⟩ := StepSystem.reachable_induction (I := Sound bounds) h
    (sound_init bounds) fun _ _ => step_sound
  refine ⟨hb ▸ htally.bytes_le, htally.bytes_eq, ?_, htally.accounted, htally.behind, ?_,
    htally.cleared, htally.lawful, htally.abort_mem, ?_, ?_, ?_⟩
  · -- after an abort nothing is queued at all
    cases hab : r.queue.aborted with
    | true =>
      rw [htally.cleared hab]
      exact Nat.zero_le 1
    | false =>
      rw [htally.boundary hab]
      split_ifs
      · exact le_rfl
      · exact Nat.zero_le 1
  · intro item hitem
    rw [← hb]
    exact htally.delivered item hitem
  · intro w hw
    obtain ⟨item, rest, hcall, -, hstuck⟩ := hwait.putter w hw
    exact ⟨item, rest, hcall, resume_isSome hwait (List.mem_append_left _ hw), hstuck⟩
  · intro w hw
    obtain ⟨hcall, hstuck⟩ := hwait.getter w hw
    exact ⟨hcall, resume_isSome hwait (List.mem_append_right _ hw), hstuck⟩
  · intro hab t ht
    exact howe hab t ht

/-- A queue of ten bytes for two-byte frames. -/
def tenBytes : Bounds := ⟨2, 10, by decide, by decide⟩

/-- A frame is put into an empty queue. -/
def oneFrame : Run :=
  ⟨[.asked 0 (.chunk [1, 2]), .accepted 0 (.chunk [1, 2])],
    { bounds := tenBytes, items := [.chunk [1, 2]], bytes := 2 }⟩

theorem oneFrame_reachable : StepSystem.Reachable Run.Step (Run.init tenBytes) oneFrame :=
  .tail .refl ⟨.put 0 [1, 2], _, ⟨1, rfl⟩, rfl, rfl⟩

theorem oneFrame_accounts :
    StepSystem.Reachable Run.Step (Run.init tenBytes) oneFrame ∧ Accounts tenBytes oneFrame :=
  ⟨oneFrame_reachable, ingress_accounts oneFrame_reachable⟩

/-- The byte count does not follow an abort: the queue is empty and two bytes are counted. -/
theorem abort_keeps_bytes : ¬ ∀ bounds r, StepSystem.Reachable Run.Step (Run.init bounds) r →
    r.queue.bytes = queuedBytes r.queue.items := by
  intro h
  have habort : StepSystem.Reachable Run.Step (Run.init tenBytes)
      ⟨oneFrame.log ++ [.aborted], oneFrame.queue.abort⟩ :=
    .tail oneFrame_reachable ⟨.abort, _, trivial, rfl, rfl⟩
  have hbytes := h tenBytes _ habort
  revert hbytes
  decide

end Ingress

end Myna
