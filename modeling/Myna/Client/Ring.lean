import Myna.Client.Capture
import Myna.Lib.History
import Myna.Lib.StepSystem

/-!
# Myna — the capture ring and its producer (`myna_audio::ring`, `myna_audio::backend`)

A capture backend pushes raw bytes into a `Producer`, which cuts them into chunks of whole frames
and hands them to the `Ring`. The consumer takes chunks out of the ring from another task, and may
drop it. Both sides reach the ring through its lock only, so a run is an interleaving of the steps
between two lock operations; `Capture.act` is one such step.

* **`Ring.push`**, **`Ring.finish`**, **`Ring.next`**, **`Ring.close`** — the operations on the
  ring;
* **`Capture.advance`** — one step of a `push` or of a `conclude` that is under way;
* **`Flow`**, **`Carry`**, **`Told`** — what a log says of the ring, of the bytes not yet emitted
  and of the health;
* **`capture_loses_nothing`** — the account of every run.
-/

namespace Myna

namespace Audio

/-! ## The ring -/

/-- One item of the consumer's stream. -/
inductive Item
  | chunk (chunk : PcmChunk)
  | fault (err : CaptureError)
  | ended
deriving DecidableEq

structure Ring where
  queue : List PcmChunk := []
  queuedBytes : ℕ := 0
  maxBytes : ℕ
  peakBytes : ℕ := 0
  format : AudioFormat
  done : Bool := false
  fault : Option CaptureError := none
  closed : Bool := false

namespace Ring

def new (maxBytes : ℕ) (format : AudioFormat) : Ring := { maxBytes := max maxBytes 1, format }

def isTerminated (r : Ring) : Bool := r.closed || r.done

/-- The fault of a ring that cannot take more. -/
def overload (r : Ring) : CaptureError :=
  .overloaded ((r.peakBytes : ℚ) / (max r.format.bytesPerSecond 1 : ℕ))

def push (r : Ring) (chunk : PcmChunk) : Ring × Option CaptureError :=
  if r.isTerminated then (r, none)
  else if r.maxBytes < r.queuedBytes + chunk.data.length then
    ({ r with done := true, fault := some r.overload }, some r.overload)
  else
    let queuedBytes := r.queuedBytes + chunk.data.length
    ({ r with queuedBytes, peakBytes := max r.peakBytes queuedBytes, queue := r.queue ++ [chunk] },
      none)

def finish (r : Ring) (fault : Option CaptureError) : Ring :=
  if r.done then r
  else { r with done := true, fault := if r.closed then r.fault else fault }

/-- The loop of `next` up to its wait: `none` is a consumer that waits to be notified. -/
def next (r : Ring) : Option (Item × Ring) :=
  match r.queue with
  | chunk :: queue =>
    some (.chunk chunk, { r with queue, queuedBytes := r.queuedBytes - chunk.data.length })
  | [] =>
    match r.fault with
    | some err => some (.fault err, { r with fault := none })
    | none => if r.done || r.closed then some (.ended, r) else none

def close (r : Ring) : Ring :=
  { r with closed := true, queue := [], queuedBytes := 0, fault := none }

/-- What `push` makes of a chunk. -/
inductive Fate
  | accepted
  | overloaded (err : CaptureError)
  | ignored
deriving DecidableEq

def fate (r : Ring) (chunk : PcmChunk) : Fate :=
  if r.isTerminated then .ignored
  else if r.maxBytes < r.queuedBytes + chunk.data.length then .overloaded r.overload
  else .accepted

/-- A consumer that reads one item after another. -/
inductive Reads : Ring → List Item → Ring → Prop
  | stop (r : Ring) : Reads r [] r
  | read {r r' r'' : Ring} {item : Item} {items : List Item} (hnext : r.next = some (item, r'))
      (hrest : Reads r' items r'') : Reads r (item :: items) r''

end Ring

/-! ## The source and its producer -/

/-- What a capture is built with, the durations in seconds. -/
structure CaptureSource where
  format : AudioFormat
  ringDepth : ℚ := 300
  chunk : ℚ := 1 / 10

namespace CaptureSource

def frameBytes (src : CaptureSource) : ℕ :=
  max (src.format.channels * src.format.sampleWidthBytes) 1

/-- Bytes of a duration. -/
def bytesOf (src : CaptureSource) (duration : ℚ) : ℕ :=
  ⌊(max src.format.bytesPerSecond 1 : ℕ) * duration⌋₊

def chunkBytes (src : CaptureSource) : ℕ :=
  let raw := src.bytesOf src.chunk
  max (raw - raw % src.frameBytes) src.frameBytes

def maxBytes (src : CaptureSource) : ℕ := max (src.bytesOf src.ringDepth) src.chunkBytes

theorem frameBytes_pos (src : CaptureSource) : 0 < src.frameBytes := by
  unfold frameBytes
  omega

theorem frameBytes_dvd_chunkBytes (src : CaptureSource) : src.frameBytes ∣ src.chunkBytes := by
  unfold chunkBytes
  dsimp only
  rcases max_choice (src.bytesOf src.chunk - src.bytesOf src.chunk % src.frameBytes)
    src.frameBytes with h | h
  · rw [h]
    exact Nat.dvd_sub_mod _
  · rw [h]

end CaptureSource

/-- Where the producer is: between two calls, within `push`, within `conclude`, or gone. -/
inductive Pc
  | idle
  | opening
  | slicing (overload : Option CaptureError)
  | answering
  | flushing (fault : Option CaptureError)
  | judging (overload fault : Option CaptureError)
  | publishing (terminal : CaptureHealth) (fault : Option CaptureError)
  | finishing (fault : Option CaptureError)
  | concluded
deriving DecidableEq

/-- What happened in a run, the newest last. -/
inductive Event
  | pushed (data : Bytes)
  | refused
  | answered (more : Bool)
  | emitted (chunk : PcmChunk) (fate : Ring.Fate)
  | concluded (fault : Option CaptureError)
  | published (health : CaptureHealth)
  | finished (fault : Option CaptureError)
  | read (item : Item)
  | closed
deriving DecidableEq

end Audio

def CaptureHealth.isTerminal : CaptureHealth → Bool
  | faulted _ => true
  | ended => true
  | _ => false

namespace Audio

/-- A ring, the producer in front of it, and what has happened. -/
structure Capture where
  ring : Ring
  health : CaptureHealth := .opening
  pending : Bytes := []
  pc : Pc := .idle
  log : List Event := []

namespace Capture

variable (src : CaptureSource)

/-- `capture()` of the source. -/
def start : Capture := { ring := Ring.new src.maxBytes src.format }

/-- Advance health; terminal states are never left. -/
def publish (c : Capture) (next : CaptureHealth) : Capture :=
  if c.health.isTerminal || c.health = next then c
  else { c with health := next, log := c.log ++ [.published next] }

/-- The first `size` pending bytes go to the ring as a chunk. -/
def emit (c : Capture) (size : ℕ) : Capture × Option CaptureError :=
  let chunk : PcmChunk := ⟨c.pending.take size, src.format⟩
  let (ring, overload) := c.ring.push chunk
  ({ c with ring, pending := c.pending.drop size,
            log := c.log ++ [.emitted chunk (c.ring.fate chunk)] }, overload)

def push (c : Capture) (data : Bytes) : Option Capture :=
  if c.pc = .idle then
    some (if c.ring.isTerminated then { c with log := c.log ++ [.refused] }
      else { c with pending := c.pending ++ data,
                    pc := if data.isEmpty then .slicing none else .opening,
                    log := c.log ++ [.pushed data] })
  else none

def conclude (c : Capture) (fault : Option CaptureError) : Option Capture :=
  if c.pc = .idle then
    some { c with pc := .flushing fault, log := c.log ++ [.concluded fault] }
  else none

/-- The next step of the call under way. -/
def advance (c : Capture) : Option Capture :=
  match c.pc with
  | .idle => none
  | .opening => some { c.publish .capturing with pc := .slicing none }
  | .slicing (some overload) => some { c.publish (.faulted overload) with pc := .slicing none }
  | .slicing none =>
    some (if src.chunkBytes ≤ c.pending.length then
        let (c, overload) := c.emit src src.chunkBytes
        { c with pc := .slicing overload }
      else { c with pc := .answering })
  | .answering =>
    some { c with pc := .idle, log := c.log ++ [.answered !c.ring.isTerminated] }
  | .flushing fault =>
    let whole := c.pending.length - c.pending.length % src.frameBytes
    some (if 0 < whole then
        let (c, overload) := c.emit src whole
        { c with pc := .judging overload fault }
      else { c with pc := .judging none fault })
  | .judging (some overload) fault =>
    some { c.publish (.faulted overload) with pc := .judging none fault }
  | .judging none fault =>
    let terminal := match fault with
      | some err => if c.ring.closed then .ended else .faulted err
      | none => .ended
    some { c with pc := .publishing terminal fault }
  | .publishing terminal fault => some { c.publish terminal with pc := .finishing fault }
  | .finishing fault =>
    some { c with ring := c.ring.finish fault, pc := .concluded,
                  log := c.log ++ [.finished fault] }
  | .concluded => none

def read (c : Capture) : Option Capture :=
  c.ring.next.map fun (item, ring) => { c with ring, log := c.log ++ [.read item] }

def close (c : Capture) : Capture := { c with ring := c.ring.close, log := c.log ++ [.closed] }

/-- A step of either side. -/
inductive Act
  | push (data : Bytes)
  | finish (fault : Option CaptureError)
  | drop
  | advance
  | read
  | close

/-- The fault of a producer that was dropped. -/
def lost : CaptureError := .backend "capture backend exited without reporting an outcome"

def act (c : Capture) : Act → Option Capture
  | .push data => c.push data
  | .finish fault => c.conclude fault
  | .drop => c.conclude (some lost)
  | .advance => c.advance src
  | .read => c.read
  | .close => some c.close

def Step (c c' : Capture) : Prop := ∃ a, c.act src a = some c'

/-- One act after another, if each is possible when its turn comes. -/
def perform (c : Capture) (acts : List Act) : Option Capture := acts.foldlM (act src) c

variable {src}

theorem reachable_of_perform {c c' : Capture} {acts : List Act} (h : c.perform src acts = some c') :
    StepSystem.Reachable (Step src) c c' := by
  induction acts generalizing c with
  | nil =>
    obtain rfl := Option.some.inj h
    exact .refl
  | cons a acts ih =>
    obtain ⟨next, hact, hrest⟩ := Option.bind_eq_some_iff.mp h
    exact .head ⟨a, hact⟩ (ih hrest)

end Capture

/-! ## What a log tells -/

namespace Event

@[simp] def bytes : Event → Bytes
  | .pushed data => data
  | _ => []

@[simp] def emitted? : Event → Option PcmChunk
  | .emitted chunk _ => some chunk
  | _ => none

@[simp] def accepted? : Event → Option PcmChunk
  | .emitted chunk .accepted => some chunk
  | _ => none

@[simp] def delivered? : Event → Option PcmChunk
  | .read (.chunk chunk) => some chunk
  | _ => none

@[simp] def fault? : Event → Option CaptureError
  | .read (.fault err) => some err
  | _ => none

@[simp] def overload? : Event → Option CaptureError
  | .emitted _ (.overloaded err) => some err
  | _ => none

@[simp] def outcome? : Event → Option (Option CaptureError)
  | .emitted _ (.overloaded err) => some (some err)
  | .finished fault => some fault
  | _ => none

end Event

section Log

variable (log : List Event)

/-- The bytes that `push` took. -/
def pushed : Bytes := log.flatMap Event.bytes

def emitted : List PcmChunk := log.filterMap Event.emitted?

def accepted : List PcmChunk := log.filterMap Event.accepted?

def delivered : List PcmChunk := log.filterMap Event.delivered?

def faults : List CaptureError := log.filterMap Event.fault?

/-- The fault of the push that found no room. -/
def overload : Option CaptureError := log.findSome? Event.overload?

/-- How capture ended: with what came first of an overload and the outcome of the backend. -/
def outcome : Option (Option CaptureError) := log.findSome? Event.outcome?

end Log

def byteCount (chunks : List PcmChunk) : ℕ := (chunks.map (·.data.length)).sum

def concatBytes (chunks : List PcmChunk) : Bytes := chunks.flatMap (·.data)

/-- What an event owes to its past. -/
def Obeys (maxBytes : ℕ) (past : List Event) : Event → Prop
  | .emitted chunk .accepted => outcome past = none ∧ .closed ∉ past ∧
    byteCount (accepted past) + chunk.data.length ≤ byteCount (delivered past) + maxBytes
  | .emitted chunk (.overloaded err) => outcome past = none ∧ .closed ∉ past ∧
    byteCount (delivered past) + maxBytes < byteCount (accepted past) + chunk.data.length ∧
    ∃ seconds, err = .overloaded seconds
  | .emitted _ .ignored => (outcome past).isSome ∨ .closed ∈ past
  | .read (.chunk chunk) => .closed ∉ past ∧ .read .ended ∉ past ∧ faults past = [] ∧
    delivered past ++ [chunk] <+: accepted past
  | .read (.fault err) => .closed ∉ past ∧ .read .ended ∉ past ∧ faults past = [] ∧
    delivered past = accepted past ∧ outcome past = some (some err)
  | .read .ended => .closed ∉ past →
    delivered past = accepted past ∧ ∃ fault, outcome past = some fault ∧ faults past = fault.toList
  | .published _ => ∀ health, .published health ∈ past → health.isTerminal = false
  | _ => True

section Concat

variable (log : List Event) (e : Event)

@[simp] theorem pushed_concat : pushed (log ++ [e]) = pushed log ++ e.bytes := by
  simp [pushed]

@[simp] theorem emitted_concat : emitted (log ++ [e]) = emitted log ++ e.emitted?.toList := by
  simp only [emitted, List.filterMap_append, List.filterMap_cons, List.filterMap_nil]
  cases e.emitted? <;> rfl

@[simp] theorem accepted_concat : accepted (log ++ [e]) = accepted log ++ e.accepted?.toList := by
  simp only [accepted, List.filterMap_append, List.filterMap_cons, List.filterMap_nil]
  cases e.accepted? <;> rfl

@[simp] theorem delivered_concat : delivered (log ++ [e])
  = delivered log ++ e.delivered?.toList := by
  simp only [delivered, List.filterMap_append, List.filterMap_cons, List.filterMap_nil]
  cases e.delivered? <;> rfl

@[simp] theorem faults_concat : faults (log ++ [e]) = faults log ++ e.fault?.toList := by
  simp only [faults, List.filterMap_append, List.filterMap_cons, List.filterMap_nil]
  cases e.fault? <;> rfl

@[simp] theorem overload_concat : overload (log ++ [e]) = (overload log).or e.overload? := by
  simp only [overload, List.findSome?_append, List.findSome?_cons, List.findSome?_nil]
  cases e.overload? <;> rfl

@[simp] theorem outcome_concat : outcome (log ++ [e]) = (outcome log).or e.outcome? := by
  simp only [outcome, List.findSome?_append, List.findSome?_cons, List.findSome?_nil]
  cases e.outcome? <;> rfl

end Concat

@[simp] theorem byteCount_append (a b : List PcmChunk) :
    byteCount (a ++ b) = byteCount a + byteCount b := by
  simp [byteCount]

@[simp] theorem concatBytes_append (a b : List PcmChunk) :
    concatBytes (a ++ b) = concatBytes a ++ concatBytes b := by
  simp [concatBytes]

@[simp] theorem byteCount_nil : byteCount [] = 0 := rfl

@[simp] theorem byteCount_cons (chunk : PcmChunk) (chunks : List PcmChunk) :
    byteCount (chunk :: chunks) = chunk.data.length + byteCount chunks := rfl

theorem dvd_byteCount {d : ℕ} {chunks : List PcmChunk} (h : ∀ chunk ∈ chunks,
    d ∣ chunk.data.length) :
    d ∣ byteCount chunks := by
  induction chunks with
  | nil => exact dvd_zero d
  | cons chunk chunks ih =>
    rw [byteCount_cons]
    exact dvd_add (h chunk List.mem_cons_self) (ih fun c hc => h c (List.mem_cons_of_mem _ hc))

theorem length_concatBytes (chunks : List PcmChunk) :
    (concatBytes chunks).length = byteCount chunks := by
  simp [concatBytes, byteCount, List.length_flatMap]

/-! ## The ring against the log -/

/-- What the log says of the ring. -/
structure Flow (r : Ring) (log : List Event) : Prop where
  closed : r.closed = true ↔ .closed ∈ log
  done : r.done = true ↔ (outcome log).isSome
  queue : .closed ∉ log → delivered log ++ r.queue = accepted log
  fault : .closed ∉ log → faults log ++ r.fault.toList = (outcome log).join.toList
  discarded : .closed ∈ log → r.queue = [] ∧ r.fault = none
  bytes : r.queuedBytes = byteCount r.queue
  bound : r.queuedBytes ≤ r.maxBytes
  /-- A fault goes behind the audio, and the end behind both. -/
  behind : faults log ≠ [] → r.queue = []
  exhausted : .read .ended ∈ log → .closed ∉ log →
    r.queue = [] ∧ r.fault = none ∧ (outcome log).isSome

section Flow

variable {r : Ring} {log : List Event}

theorem Flow.isTerminated (h : Flow r log) :
    r.isTerminated = true ↔ (outcome log).isSome ∨ .closed ∈ log := by
  rw [Ring.isTerminated, Bool.or_eq_true, h.closed, h.done, or_comm]

/-- No end is read from a ring that is open. -/
theorem Flow.not_over (h : Flow r log) (hout : outcome log = none) (hclosed : .closed ∉ log) :
    .read .ended ∉ log := by
  intro hend
  have hsome := (h.exhausted hend hclosed).2.2
  rw [hout] at hsome
  cases hsome

/-- An event of neither a chunk on its way nor an end of either side. -/
theorem Flow.silent (h : Flow r log) {e : Event} (hacc : e.accepted? = none)
    (hdel : e.delivered? = none) (hfault : e.fault? = none) (hout : e.outcome? = none)
    (hclosed : e ≠ .closed) (hend : e ≠ .read .ended) : Flow r (log ++ [e]) where
  closed := by simpa [hclosed.symm] using h.closed
  done := by
    rw [outcome_concat, hout, Option.or_none]
    exact h.done
  queue := by
    rw [delivered_concat, accepted_concat, hacc, hdel]
    simpa [hclosed.symm] using h.queue
  fault := by
    rw [faults_concat, outcome_concat, hout, hfault, Option.or_none]
    simpa [hclosed.symm] using h.fault
  discarded := by simpa [hclosed.symm] using h.discarded
  bytes := h.bytes
  bound := h.bound
  behind := by
    rw [faults_concat, hfault]
    simpa using h.behind
  exhausted := by
    rw [outcome_concat, hout, Option.or_none]
    simpa [hclosed.symm, hend.symm] using h.exhausted

/-- A push, and what the fate of the chunk says of the ring. -/
theorem Flow.push (h : Flow r log) (chunk : PcmChunk) :
    Flow (r.push chunk).1 (log ++ [.emitted chunk (r.fate chunk)]) ∧
      Obeys r.maxBytes log (.emitted chunk (r.fate chunk)) := by
  unfold Ring.push Ring.fate
  by_cases hterm : r.isTerminated = true
  · rw [if_pos hterm, if_pos hterm]
    exact ⟨h.silent rfl rfl rfl rfl nofun nofun, h.isTerminated.mp hterm⟩
  · have hopen := mt h.isTerminated.mpr hterm
    rw [not_or, Option.not_isSome_iff_eq_none] at hopen
    obtain ⟨hout, hclosed⟩ := hopen
    have hqueue := h.queue hclosed
    have hfault := h.fault hclosed
    rw [hout] at hfault
    obtain ⟨hfaults, hnone⟩ := List.append_eq_nil_iff.mp hfault
    have hend := h.not_over hout hclosed
    have hcount : byteCount (delivered log) + r.queuedBytes = byteCount (accepted log) := by
      rw [h.bytes, ← byteCount_append, hqueue]
    rw [if_neg hterm, if_neg hterm]
    by_cases hfull : r.maxBytes < r.queuedBytes + chunk.data.length
    · rw [if_pos hfull, if_pos hfull]
      refine ⟨⟨?_, ?_, ?_, ?_, ?_, h.bytes, h.bound, ?_, ?_⟩, hout, hclosed, by omega, _, rfl⟩
      · simpa using h.closed
      · simp [hout]
      · simpa using h.queue
      · simp [hout, hfaults]
      · simp [hclosed]
      · simp [hfaults]
      · simp [hend]
    · rw [if_neg hfull, if_neg hfull]
      refine ⟨⟨?_, ?_, ?_, ?_, ?_, ?_, ?_, ?_, ?_⟩, hout, hclosed, by omega⟩
      · simpa using h.closed
      · simpa using h.done
      · simp [hclosed, ← hqueue]
      · simpa using h.fault
      · simp [hclosed]
      · simp [h.bytes]
      · show r.queuedBytes + chunk.data.length ≤ r.maxBytes
        omega
      · simp [hfaults]
      · simp [hend]

theorem Flow.finish (h : Flow r log) (fault : Option CaptureError) :
    Flow (r.finish fault) (log ++ [.finished fault]) := by
  unfold Ring.finish
  by_cases hdone : r.done = true
  · rw [if_pos hdone]
    obtain ⟨first, hout⟩ := Option.isSome_iff_exists.mp (h.done.mp hdone)
    refine ⟨?_, ?_, ?_, ?_, ?_, h.bytes, h.bound, ?_, ?_⟩
    · simpa using h.closed
    · simp [hdone]
    · simpa using h.queue
    · simpa [hout] using h.fault
    · simpa using h.discarded
    · simpa using h.behind
    · simpa [hout] using h.exhausted
  · rw [if_neg hdone]
    have hout : outcome log = none := Option.not_isSome_iff_eq_none.mp (mt h.done.mpr hdone)
    refine ⟨?_, ?_, ?_, ?_, ?_, h.bytes, h.bound, ?_, ?_⟩
    · simpa using h.closed
    · simp
    · simpa using h.queue
    · intro hnot
      have hclosed : .closed ∉ log := by simpa using hnot
      have hfault := h.fault hclosed
      rw [hout] at hfault
      obtain ⟨hfaults, -⟩ := List.append_eq_nil_iff.mp hfault
      have hopen : r.closed = false := by simpa [hclosed] using h.closed
      simp [hout, hfaults, hopen]
    · intro hmem
      have hclosed : .closed ∈ log := by simpa using hmem
      rw [if_pos (h.closed.mpr hclosed)]
      exact h.discarded hclosed
    · simpa using h.behind
    · intro hend hnot
      exact absurd (by simpa using hend) (h.not_over hout (by simpa using hnot))

theorem Flow.close (h : Flow r log) : Flow r.close (log ++ [.closed]) := by
  refine ⟨?_, ?_, ?_, ?_, ?_, rfl, Nat.zero_le _, fun _ => rfl, ?_⟩
  · simp [Ring.close]
  · simpa [Ring.close] using h.done
  · simp
  · simp
  · simp [Ring.close]
  · simp

/-- An item read, and what it tells of the past. -/
theorem Flow.next (h : Flow r log) {item : Item} {r' : Ring} (hnext : r.next = some (item, r')) :
    Flow r' (log ++ [.read item]) ∧ Obeys r.maxBytes log (.read item) := by
  unfold Ring.next at hnext
  split at hnext
  · next chunk queue hq =>
    obtain ⟨rfl, rfl⟩ := Prod.mk.inj (Option.some.inj hnext)
    have hclosed : .closed ∉ log := by
      intro hmem
      have hnil := (h.discarded hmem).1
      rw [hq] at hnil
      cases hnil
    have hqueue := h.queue hclosed
    have hend : .read .ended ∉ log := by
      intro hmem
      have hnil := (h.exhausted hmem hclosed).1
      rw [hq] at hnil
      cases hnil
    have hcount : r.queuedBytes = chunk.data.length + byteCount queue := by
      rw [h.bytes, hq, byteCount_cons]
    have hbound := h.bound
    have hfaults : faults log = [] := by
      by_contra hne
      have hnil := h.behind hne
      rw [hq] at hnil
      cases hnil
    have htaken : (delivered log ++ [chunk]) ++ queue = accepted log := by
      rw [List.append_assoc, List.singleton_append, ← hq, hqueue]
    refine ⟨⟨?_, ?_, ?_, ?_, ?_, ?_, ?_, ?_, ?_⟩, hclosed, hend, hfaults, ?_⟩
    · simpa using h.closed
    · simpa using h.done
    · simpa [hclosed] using htaken
    · simpa using h.fault
    · simp [hclosed]
    · show r.queuedBytes - chunk.data.length = byteCount queue
      omega
    · show r.queuedBytes - chunk.data.length ≤ r.maxBytes
      omega
    · simp [hfaults]
    · simp [hend]
    · exact ⟨queue, htaken⟩
  · next hq =>
    split at hnext
    · next err hf =>
      obtain ⟨rfl, rfl⟩ := Prod.mk.inj (Option.some.inj hnext)
      have hclosed : .closed ∉ log := by
        intro hmem
        have hnone := (h.discarded hmem).2
        rw [hf] at hnone
        cases hnone
      have hqueue := h.queue hclosed
      rw [hq, List.append_nil] at hqueue
      have hend : .read .ended ∉ log := by
        intro hmem
        have hnone := (h.exhausted hmem hclosed).2.1
        rw [hf] at hnone
        cases hnone
      have hfault := h.fault hclosed
      rw [hf, Option.toList_some] at hfault
      -- one fault is latched, so the one in hand is the only one
      obtain ⟨hfaults, hout⟩ : faults log = [] ∧ outcome log = some (some err) := by
        cases hout : outcome log with
        | none => simp [hout] at hfault
        | some first =>
          cases first with
          | none => simp [hout] at hfault
          | some first =>
            simp only [hout, Option.join_some, Option.toList_some,
              List.append_eq_singleton_iff] at hfault
            rcases hfault with ⟨hfaults, herr⟩ | ⟨-, hnil⟩
            · obtain ⟨rfl, -⟩ := List.cons.inj herr
              exact ⟨hfaults, rfl⟩
            · cases hnil
      refine ⟨⟨?_, ?_, ?_, ?_, ?_, h.bytes, h.bound, fun _ => hq, ?_⟩,
        hclosed, hend, hfaults, hqueue, hout⟩
      · simpa using h.closed
      · simpa using h.done
      · simpa [hclosed, hq] using hqueue
      · simp [hfaults, hout]
      · simp [hclosed]
      · simp [hend]
    · next hf =>
      split_ifs at hnext with hdone
      · obtain ⟨rfl, rfl⟩ := Prod.mk.inj (Option.some.inj hnext)
        refine ⟨⟨?_, ?_, ?_, ?_, ?_, h.bytes, h.bound, fun _ => hq, ?_⟩, ?_⟩
        · simpa using h.closed
        · simpa using h.done
        · simpa using h.queue
        · simpa using h.fault
        · simpa using h.discarded
        · intro _ hnot
          have hclosed : .closed ∉ log := by simpa using hnot
          refine ⟨hq, hf, ?_⟩
          simpa [h.done, h.closed, hclosed] using hdone
        · intro hclosed
          have hqueue := h.queue hclosed
          have hfault := h.fault hclosed
          rw [hq, List.append_nil] at hqueue
          rw [hf, Option.toList_none, List.append_nil] at hfault
          have hsome : (outcome log).isSome := by simpa [h.done, h.closed, hclosed] using hdone
          obtain ⟨fault, hout⟩ := Option.isSome_iff_exists.mp hsome
          rw [hout] at hfault
          exact ⟨hqueue, fault, hout, hfault⟩

/-- The consumer of a ring that is over reads what is queued, then the fault, then the end. -/
theorem Ring.reads_done (hdone : r.done = true) :
    ∃ r', r.Reads (r.queue.map .chunk ++ r.fault.toList.map .fault ++ [.ended]) r' := by
  obtain ⟨queue, hq⟩ : ∃ queue, r.queue = queue := ⟨_, rfl⟩
  rw [hq]
  induction queue generalizing r with
  | nil =>
    cases hf : r.fault with
    | none =>
      have hnext : r.next = some (.ended, r) := by simp [Ring.next, hq, hf, hdone]
      exact ⟨r, .read hnext (.stop r)⟩
    | some err =>
      have hnext : r.next = some (.fault err, { r with fault := none }) := by
        simp [Ring.next, hq, hf]
      have hend : Ring.next { r with fault := none } = some (.ended, { r with fault := none }) := by
        simp [Ring.next, hq, hdone]
      exact ⟨_, .read hnext (.read hend (.stop _))⟩
  | cons chunk queue ih =>
    have hnext : r.next = some (.chunk chunk,
        { r with queue, queuedBytes := r.queuedBytes - chunk.data.length }) := by
      simp [Ring.next, hq]
    obtain ⟨r', hrest⟩ := ih
      (r := { r with queue, queuedBytes := r.queuedBytes - chunk.data.length }) hdone rfl
    exact ⟨r', .read hnext hrest⟩

end Flow

/-! ## The producer against the log -/

/-- The health that tells of an outcome. -/
def verdict : Option CaptureError → CaptureHealth
  | some err => .faulted err
  | none => .ended

@[simp] theorem isTerminal_verdict (fault : Option CaptureError) :
    (verdict fault).isTerminal = true := by
  cases fault <;> rfl

/-- Within `push` and before an outcome, the health tells of the overload alone. -/
def Shows (health : CaptureHealth) : Option CaptureError → Prop
  | some err => health = .faulted err
  | none => health.isTerminal = false

/-- Capture ends with `fault`, or the consumer has gone and it ends all the same. -/
def Ends (log : List Event) (health : CaptureHealth) (fault : Option CaptureError) : Prop :=
  health = verdict fault ∨ .closed ∈ log ∧ health = .ended

/-- What the log says of the health, by where the producer is. -/
def Told (log : List Event) (health : CaptureHealth) : Pc → Prop
  | .slicing (some err) | .judging (some err) _ =>
    overload log = some err ∧ health.isTerminal = false
  | .publishing terminal fault => Shows health (overload log) ∧ Ends log terminal fault
  | .finishing fault => Ends log health ((overload log).or fault)
  | .concluded => ∃ fault, outcome log = some fault ∧ Ends log health fault
  | _ => Shows health (overload log)

def Pc.flushed : Pc → Bool
  | .judging _ _ | .publishing _ _ | .finishing _ | .concluded => true
  | _ => false

/-- What the log says of the bytes on their way, whatever the producer does next. -/
structure Carry (src : CaptureSource) (log : List Event) (pending : Bytes) : Prop where
  carried : concatBytes (emitted log) ++ pending = pushed log
  whole : ∀ chunk ∈ emitted log, src.frameBytes ∣ chunk.data.length
  kept : overload log = none → .closed ∉ log → accepted log = emitted log

/-- What the log says of a capture, wherever the producer is. -/
structure Base (src : CaptureSource) (c : Capture) : Prop where
  lawful : History.Lawful (Obeys (max src.maxBytes 1)) c.log
  budget : c.ring.maxBytes = max src.maxBytes 1
  flow : Flow c.ring c.log
  carry : Carry src c.log c.pending
  latest : ∀ health, .published health ∈ c.log → health.isTerminal = true → c.health = health

/-- What the log says of a capture. -/
structure Account (src : CaptureSource) (c : Capture) : Prop extends Base src c where
  told : Told c.log c.health c.pc
  running : c.pc ≠ .concluded → outcome c.log = (overload c.log).map some
  short : c.pc.flushed = true → c.pending.length < src.frameBytes

section Account

variable {src : CaptureSource} {c : Capture}

/-- The program counter is of no account. -/
theorem Base.at (h : Base src c) (pc : Pc) : Base src { c with pc } :=
  ⟨h.lawful, h.budget, h.flow, h.carry, h.latest⟩

/-- An event that is free, and says nothing of a chunk, a health or an end. -/
theorem Base.silent (h : Base src c) {e : Event} {pending : Bytes}
    (hfree : Obeys (max src.maxBytes 1) c.log e) (hflow : Flow c.ring (c.log ++ [e]))
    (hcarry : Carry src (c.log ++ [e]) pending) (hnot : ∀ health, e ≠ .published health) :
    Base src { c with pending, log := c.log ++ [e] } where
  lawful := History.lawful_concat.mpr ⟨h.lawful, hfree⟩
  budget := h.budget
  flow := hflow
  carry := hcarry
  latest := by
    intro health hmem hterm
    rcases List.mem_append.mp hmem with hmem | hmem
    · exact h.latest health hmem hterm
    · exact absurd (List.mem_singleton.mp hmem).symm (hnot health)

theorem Carry.silent {log : List Event} {pending : Bytes} (h : Carry src log pending) {e : Event}
    (hbytes : e.bytes = []) (hemit : e.emitted? = none) (hacc : e.accepted? = none)
    (hover : e.overload? = none) : Carry src (log ++ [e]) pending where
  carried := by
    rw [emitted_concat, pushed_concat, hbytes, hemit]
    simpa using h.carried
  whole := by
    rw [emitted_concat, hemit]
    simpa using h.whole
  kept := by
    rw [overload_concat, hover, accepted_concat, hacc, emitted_concat, hemit]
    intro hnone hnot
    have hclosed : .closed ∉ log := fun hmem => hnot (List.mem_append_left _ hmem)
    simpa using h.kept (by simpa using hnone) hclosed

/-- Publishing a health. -/
theorem Base.publish (h : Base src c) (next : CaptureHealth) : Base src (c.publish next) := by
  unfold Capture.publish
  split_ifs with hsame
  · exact h
  · have hlive : c.health.isTerminal = false := by
      by_contra hterm
      exact hsame (by simp [hterm])
    refine ⟨History.lawful_concat.mpr ⟨h.lawful, ?_⟩, h.budget,
      h.flow.silent rfl rfl rfl rfl nofun nofun, h.carry.silent rfl rfl rfl rfl, ?_⟩
    · intro health hmem
      by_contra hterm
      have heq := h.latest health hmem (by simpa using hterm)
      rw [heq] at hlive
      exact hterm hlive
    · intro health hmem hterm
      rcases List.mem_append.mp hmem with hmem | hmem
      · have heq := h.latest health hmem hterm
        rw [heq, hterm] at hlive
        cases hlive
      · obtain rfl : health = next := by simpa using hmem
        rfl

section Publish

variable (c) (next : CaptureHealth)

@[simp] theorem ring_publish : (c.publish next).ring = c.ring := by
  unfold Capture.publish
  split_ifs <;> rfl

@[simp] theorem pending_publish : (c.publish next).pending = c.pending := by
  unfold Capture.publish
  split_ifs <;> rfl

@[simp] theorem overload_publish : overload (c.publish next).log = overload c.log := by
  unfold Capture.publish
  split_ifs <;> simp

@[simp] theorem outcome_publish : outcome (c.publish next).log = outcome c.log := by
  unfold Capture.publish
  split_ifs <;> simp

@[simp] theorem closed_publish : .closed ∈ (c.publish next).log ↔ .closed ∈ c.log := by
  unfold Capture.publish
  split_ifs <;> simp

theorem health_publish :
    (c.publish next).health = if c.health.isTerminal then c.health else next := by
  unfold Capture.publish
  cases hterm : c.health.isTerminal with
  | true => simp
  | false =>
    by_cases hsame : c.health = next
    · simp [hsame]
    · simp [hsame]

theorem health_publish_of_shows {overload : Option CaptureError} (h : Shows c.health overload)
    (fault : Option CaptureError) :
    (c.publish (verdict fault)).health = verdict (overload.or fault) := by
  rw [health_publish]
  cases overload with
  | none => rw [show c.health.isTerminal = false from h]; rfl
  | some err => rw [show c.health = .faulted err from h]; rfl

end Publish

@[simp] theorem Ring.maxBytes_push (r : Ring) (chunk : PcmChunk) :
    (r.push chunk).1.maxBytes = r.maxBytes := by
  unfold Ring.push
  split_ifs <;> rfl

@[simp] theorem Ring.maxBytes_finish (r : Ring) (fault : Option CaptureError) :
    (r.finish fault).maxBytes = r.maxBytes := by
  unfold Ring.finish
  split_ifs <;> rfl

theorem Ring.maxBytes_next {r r' : Ring} {item : Item} (h : r.next = some (item, r')) :
    r'.maxBytes = r.maxBytes := by
  unfold Ring.next at h
  split at h
  · cases h
    rfl
  · split at h
    · cases h
      rfl
    · split_ifs at h
      cases h
      rfl

/-- The overload that a push returns is the one its fate tells of. -/
theorem Ring.push_snd (r : Ring) (chunk : PcmChunk) :
    (r.push chunk).2 = (Event.emitted chunk (r.fate chunk)).overload? := by
  unfold Ring.push Ring.fate
  split_ifs <;> rfl

@[simp] theorem concatBytes_singleton (chunk : PcmChunk) : concatBytes [chunk] = chunk.data := by
  simp [concatBytes]

/-- A chunk of whole frames from the pending bytes. -/
theorem Carry.emit {log : List Event} {pending : Bytes} (h : Carry src log pending)
    (hrun : outcome log = (overload log).map some) {size maxBytes : ℕ} {fate : Ring.Fate}
    (hfree : Obeys maxBytes log (.emitted ⟨pending.take size, src.format⟩ fate))
    (hframes : src.frameBytes ∣ size) (hsize : size ≤ pending.length) :
    Carry src (log ++ [.emitted ⟨pending.take size, src.format⟩ fate]) (pending.drop size) where
  carried := by
    rw [emitted_concat, pushed_concat]
    simpa using h.carried
  whole := by
    intro chunk hmem
    rw [emitted_concat] at hmem
    rcases List.mem_append.mp hmem with hmem | hmem
    · exact h.whole chunk hmem
    · obtain rfl : chunk = ⟨pending.take size, src.format⟩ := by simpa using hmem
      rw [List.length_take, Nat.min_eq_left hsize]
      exact hframes
  kept := by
    intro hnone hnot
    rw [overload_concat, Option.or_eq_none_iff] at hnone
    have hclosed : .closed ∉ log := fun hmem => hnot (List.mem_append_left _ hmem)
    cases fate with
    | accepted =>
      rw [accepted_concat, emitted_concat, h.kept hnone.1 hclosed]
      rfl
    | overloaded err => cases hnone.2
    | ignored =>
      rcases hfree with hsome | hmem
      · rw [hrun, hnone.1] at hsome
        cases hsome
      · exact absurd hmem hclosed

theorem Base.emit (h : Base src c) (hrun : outcome c.log = (overload c.log).map some) {size : ℕ}
    (hframes : src.frameBytes ∣ size) (hsize : size ≤ c.pending.length) :
    Base src (c.emit src size).1 := by
  obtain ⟨hflow, hfree⟩ := h.flow.push ⟨c.pending.take size, src.format⟩
  rw [h.budget] at hfree
  refine ⟨History.lawful_concat.mpr ⟨h.lawful, hfree⟩, ?_, hflow,
    h.carry.emit hrun hfree hframes hsize, ?_⟩
  · show (c.ring.push ⟨c.pending.take size, src.format⟩).1.maxBytes = _
    rw [Ring.maxBytes_push, h.budget]
  · intro health hmem hterm
    rcases List.mem_append.mp hmem with hmem | hmem
    · exact h.latest health hmem hterm
    · cases List.mem_singleton.mp hmem

/-- What an emission leaves for the producer to publish. -/
theorem Base.emit_told (h : Base src c) (hrun : outcome c.log = (overload c.log).map some)
    (hshows : Shows c.health (overload c.log)) {size : ℕ} :
    outcome (c.emit src size).1.log = (overload (c.emit src size).1.log).map some ∧
      match (c.emit src size).2 with
      | some err => overload (c.emit src size).1.log = some err ∧ c.health.isTerminal = false
      | none => Shows c.health (overload (c.emit src size).1.log) := by
  obtain ⟨-, hfree⟩ := h.flow.push ⟨c.pending.take size, src.format⟩
  have hlog : (c.emit src size).1.log = c.log ++ [.emitted ⟨c.pending.take size, src.format⟩
      (c.ring.fate ⟨c.pending.take size, src.format⟩)] := rfl
  have hret : (c.emit src size).2 = (Event.emitted ⟨c.pending.take size, src.format⟩
      (c.ring.fate ⟨c.pending.take size, src.format⟩)).overload? := Ring.push_snd _ _
  rw [hlog, hret, overload_concat, outcome_concat]
  cases hfate : c.ring.fate ⟨c.pending.take size, src.format⟩ with
  | accepted => simpa using ⟨hrun, hshows⟩
  | ignored => simpa using ⟨hrun, hshows⟩
  | overloaded err =>
    rw [hfate] at hfree
    -- only an open ring overloads, so no fault has been published
    have hnone : overload c.log = none := by
      rw [hfree.1] at hrun
      simpa using hrun.symm
    rw [hnone] at hshows
    simp [hrun, hnone, show c.health.isTerminal = false from hshows]

theorem Ends.mono {log : List Event} {health : CaptureHealth} {fault : Option CaptureError}
    (h : Ends log health fault) (e : Event) : Ends (log ++ [e]) health fault :=
  h.imp_right fun hend => ⟨List.mem_append_left _ hend.1, hend.2⟩

/-- What the consumer does tells nothing of the health. -/
theorem Told.consumer {log : List Event} {health : CaptureHealth} {pc : Pc}
    (h : Told log health pc) {e : Event} (hover : e.overload? = none) (hout : e.outcome? = none) :
    Told (log ++ [e]) health pc := by
  have hsame : overload (log ++ [e]) = overload log := by
    rw [overload_concat, hover, Option.or_none]
  have hsame' : outcome (log ++ [e]) = outcome log := by
    rw [outcome_concat, hout, Option.or_none]
  unfold Told at h ⊢
  rw [hsame, hsame']
  split at h
  · exact h
  · exact h
  · exact ⟨h.1, h.2.mono e⟩
  · exact h.mono e
  · obtain ⟨fault, hfault, hend⟩ := h
    exact ⟨fault, hfault, hend.mono e⟩
  · exact h

/-! ### One step -/

theorem Account.idle (h : Account src c) (hpc : c.pc = .idle) :
    Shows c.health (overload c.log) ∧ outcome c.log = (overload c.log).map some := by
  have htold := h.told
  rw [hpc] at htold
  exact ⟨htold, h.running (by rw [hpc]; nofun)⟩

theorem Account.push (h : Account src c) {data : Bytes} {c' : Capture}
    (hstep : c.push data = some c') : Account src c' := by
  by_cases hpc : c.pc = .idle
  swap
  · rw [Capture.push, if_neg hpc] at hstep
    cases hstep
  obtain ⟨hshows, hrun⟩ := h.idle hpc
  rw [Capture.push, if_pos hpc] at hstep
  split_ifs at hstep with hterm
  · cases hstep
    refine ⟨h.toBase.silent (e := .refused) trivial
      (h.flow.silent rfl rfl rfl rfl nofun nofun)
        (h.carry.silent rfl rfl rfl rfl) nofun, ?_, ?_, ?_⟩
    · simpa [hpc, Told] using hshows
    · simpa using fun _ => hrun
    · simp [hpc, Pc.flushed]
  all_goals
    cases hstep
    have hcarry : Carry src (c.log ++ [.pushed data]) (c.pending ++ data) := by
      refine ⟨?_, ?_, ?_⟩
      · simp [← h.carry.carried]
      · simpa using h.carry.whole
      · simpa using h.carry.kept
    have hbase : Base src { c with pending := c.pending ++ data, log := c.log ++ [.pushed data] } :=
      h.toBase.silent trivial (h.flow.silent rfl rfl rfl rfl nofun nofun) hcarry nofun
    refine ⟨hbase.at _, ?_, ?_, nofun⟩
    · simpa [Told] using hshows
    · simpa using hrun

theorem Account.conclude (h : Account src c) {fault : Option CaptureError} {c' : Capture}
    (hstep : c.conclude fault = some c') : Account src c' := by
  unfold Capture.conclude at hstep
  split_ifs at hstep with hpc
  obtain ⟨hshows, hrun⟩ := h.idle hpc
  cases hstep
  refine ⟨(h.toBase.silent (e := .concluded fault) trivial
    (h.flow.silent rfl rfl rfl rfl nofun nofun) (h.carry.silent rfl rfl rfl rfl) nofun).at _,
    ?_, ?_, nofun⟩
  · simpa [Told] using hshows
  · simpa using hrun

theorem Account.read (h : Account src c) {c' : Capture} (hstep : c.read = some c') :
    Account src c' := by
  obtain ⟨⟨item, ring⟩, hnext, rfl⟩ := Option.map_eq_some_iff.mp hstep
  obtain ⟨hflow, hfree⟩ := h.flow.next hnext
  rw [h.budget] at hfree
  refine ⟨⟨History.lawful_concat.mpr ⟨h.lawful, hfree⟩, ?_, hflow,
    h.carry.silent rfl rfl rfl rfl, ?_⟩, h.told.consumer rfl rfl, ?_, h.short⟩
  · exact (Ring.maxBytes_next hnext).trans h.budget
  · simpa using h.latest
  · simpa using h.running

theorem Account.close (h : Account src c) : Account src c.close := by
  refine ⟨⟨History.lawful_concat.mpr ⟨h.lawful, trivial⟩, h.budget, h.flow.close,
    h.carry.silent rfl rfl rfl rfl, ?_⟩, h.told.consumer rfl rfl, ?_, h.short⟩
  · simpa [Capture.close] using h.latest
  · simpa [Capture.close] using h.running

theorem Shows.publish_capturing {overload : Option CaptureError} (h : Shows c.health overload) :
    Shows (c.publish .capturing).health overload := by
  rw [health_publish]
  cases overload with
  | none =>
    rw [show c.health.isTerminal = false from h]
    rfl
  | some err =>
    rw [show c.health = .faulted err from h]
    rfl

/-- The outcome of a call of `conclude` goes to the health before it goes to the ring. -/
theorem Ends.publish {overload fault : Option CaptureError} {terminal : CaptureHealth}
    (hshows : Shows c.health overload) (h : Ends c.log terminal fault) :
    Ends (c.publish terminal).log (c.publish terminal).health (overload.or fault) := by
  rw [Ends, closed_publish]
  rcases h with rfl | ⟨hclosed, rfl⟩
  · exact Or.inl (health_publish_of_shows c hshows fault)
  · have hhealth := health_publish_of_shows c hshows none
    rw [show verdict none = .ended from rfl, Option.or_none] at hhealth
    cases overload with
    | none => exact Or.inr ⟨hclosed, hhealth⟩
    | some err => exact Or.inl hhealth

/-- One step of the call under way. -/
theorem Account.advance (h : Account src c) {c' : Capture} (hstep : c.advance src = some c') :
    Account src c' := by
  have htold := h.told
  have hrun := h.running
  have hbase := h.toBase
  unfold Capture.advance at hstep
  split at hstep
  · cases hstep
  · next hpc =>
    cases hstep
    rw [hpc] at htold hrun
    refine ⟨(hbase.publish .capturing).at _, ?_, ?_, nofun⟩
    · show Shows (c.publish .capturing).health (overload (c.publish .capturing).log)
      rw [overload_publish]
      exact htold.publish_capturing
    · simpa using hrun
  · next overload hpc =>
    cases hstep
    rw [hpc] at htold hrun
    refine ⟨(hbase.publish (.faulted overload)).at _, ?_, ?_, nofun⟩
    · show Shows (c.publish (.faulted overload)).health (Audio.overload (c.publish _).log)
      rw [overload_publish, htold.1, health_publish, htold.2]
      rfl
    · simpa using hrun
  · next hpc =>
    cases hstep
    rw [hpc] at htold hrun
    have hrun := hrun nofun
    by_cases hmore : src.chunkBytes ≤ c.pending.length
    · rw [if_pos hmore]
      obtain ⟨hrun', htold'⟩ := @Base.emit_told _ _ hbase hrun htold src.chunkBytes
      refine ⟨(hbase.emit hrun src.frameBytes_dvd_chunkBytes hmore).at _, ?_, fun _ => hrun', nofun⟩
      show Told (c.emit src src.chunkBytes).1.log c.health (.slicing (c.emit src src.chunkBytes).2)
      cases hover : (c.emit src src.chunkBytes).2 with
      | none => rwa [hover] at htold'
      | some err => rwa [hover] at htold'
    · rw [if_neg hmore]
      exact ⟨hbase.at _, htold, fun _ => hrun, nofun⟩
  · next hpc =>
    cases hstep
    rw [hpc] at htold hrun
    refine ⟨(hbase.silent (e := .answered !c.ring.isTerminated) trivial
      (hbase.flow.silent rfl rfl rfl rfl nofun nofun)
        (hbase.carry.silent rfl rfl rfl rfl) nofun).at _,
      ?_, ?_, nofun⟩
    · simpa [Told] using htold
    · simpa using hrun
  · next fault hpc =>
    cases hstep
    rw [hpc] at htold hrun
    have hrun := hrun nofun
    have hmod := Nat.mod_lt c.pending.length src.frameBytes_pos
    have hle := Nat.mod_le c.pending.length src.frameBytes
    by_cases hmore : 0 < c.pending.length - c.pending.length % src.frameBytes
    · rw [if_pos hmore]
      obtain ⟨hrun', htold'⟩ := @Base.emit_told _ _ hbase hrun htold
        (c.pending.length - c.pending.length % src.frameBytes)
      refine ⟨(hbase.emit hrun (Nat.dvd_sub_mod _) (Nat.sub_le _ _)).at _, ?_, fun _ => hrun', ?_⟩
      · show Told (c.emit src _).1.log c.health (.judging (c.emit src _).2 fault)
        cases hover : (c.emit src _).2 with
        | none => rwa [hover] at htold'
        | some err => rwa [hover] at htold'
      · intro _
        show (c.pending.drop _).length < src.frameBytes
        rw [List.length_drop]
        omega
    · rw [if_neg hmore]
      exact ⟨hbase.at _, htold, fun _ => hrun, fun _ => by dsimp only; omega⟩
  · next overload fault hpc =>
    cases hstep
    rw [hpc] at htold hrun
    refine ⟨(hbase.publish (.faulted overload)).at _, ?_, ?_, ?_⟩
    · show Shows (c.publish (.faulted overload)).health (Audio.overload (c.publish _).log)
      rw [overload_publish, htold.1, health_publish, htold.2]
      rfl
    · simpa using hrun
    · simpa using fun _ => h.short (by rw [hpc]; rfl)
  · next fault hpc =>
    cases hstep
    rw [hpc] at htold hrun
    refine ⟨hbase.at _, ⟨htold, ?_⟩, fun _ => hrun nofun, fun _ => h.short (by rw [hpc]; rfl)⟩
    cases fault with
    | none => exact Or.inl rfl
    | some err =>
      by_cases hclosed : c.ring.closed = true
      · exact Or.inr ⟨hbase.flow.closed.mp hclosed, by simp [hclosed]⟩
      · exact Or.inl (by simp [hclosed, verdict])
  · next terminal fault hpc =>
    cases hstep
    rw [hpc] at htold hrun
    refine ⟨(hbase.publish terminal).at _, ?_, ?_, ?_⟩
    · show Ends (c.publish terminal).log (c.publish terminal).health _
      rw [overload_publish]
      exact htold.2.publish htold.1
    · simpa using hrun
    · simpa using fun _ => h.short (by rw [hpc]; rfl)
  · next fault hpc =>
    cases hstep
    rw [hpc] at htold hrun
    have hrun := hrun nofun
    refine ⟨⟨History.lawful_concat.mpr ⟨h.lawful, trivial⟩, ?_, hbase.flow.finish fault,
      hbase.carry.silent rfl rfl rfl rfl, ?_⟩, ?_, nofun, fun _ => h.short (by rw [hpc]; rfl)⟩
    · exact (Ring.maxBytes_finish _ _).trans h.budget
    · simpa using h.latest
    · refine ⟨(overload c.log).or fault, ?_, htold.mono _⟩
      rw [outcome_concat, hrun]
      cases overload c.log <;> rfl
  · cases hstep

theorem Account.step (h : Account src c) {c' : Capture} (hstep : Capture.Step src c c') :
    Account src c' := by
  obtain ⟨a, ha⟩ := hstep
  cases a with
  | push data => exact h.push ha
  | finish fault => exact h.conclude ha
  | drop => exact h.conclude ha
  | advance => exact h.advance ha
  | read => exact h.read ha
  | close =>
    obtain rfl := Option.some.inj ha
    exact h.close

end Account

variable {src : CaptureSource} {c : Capture}

theorem start_account : Account src (Capture.start src) where
  lawful := History.lawful_nil
  budget := rfl
  flow := ⟨by simp [Capture.start, Ring.new], by simp [Capture.start, Ring.new, outcome],
    fun _ => rfl, fun _ => rfl, nofun, rfl, Nat.zero_le _, fun _ => rfl, nofun⟩
  carry := ⟨rfl, nofun, fun _ _ => rfl⟩
  latest := nofun
  told := rfl
  running := fun _ => rfl
  short := nofun

theorem run_account (h : StepSystem.Reachable (Capture.Step src) (Capture.start src) c) :
    Account src c :=
  StepSystem.reachable_induction h start_account fun _ _ haccount => haccount.step

/-! ## The account of a run -/

theorem health_publish_of_terminal (hterm : c.health.isTerminal = true) (next : CaptureHealth) :
    (c.publish next).health = c.health := by
  rw [health_publish, if_pos hterm]

/-- A health that is terminal stays. -/
theorem step_health {c' : Capture} (hterm : c.health.isTerminal = true)
    (hstep : Capture.Step src c c') : c'.health = c.health := by
  obtain ⟨a, ha⟩ := hstep
  cases a with
  | push data =>
    simp only [Capture.act, Capture.push] at ha
    split_ifs at ha <;> (cases ha; rfl)
  | finish fault =>
    simp only [Capture.act, Capture.conclude] at ha
    split_ifs at ha
    cases ha
    rfl
  | drop =>
    simp only [Capture.act, Capture.conclude] at ha
    split_ifs at ha
    cases ha
    rfl
  | advance =>
    simp only [Capture.act, Capture.advance] at ha
    split at ha
    · cases ha
    · cases ha
      exact health_publish_of_terminal hterm _
    · cases ha
      exact health_publish_of_terminal hterm _
    · cases ha
      split_ifs <;> rfl
    · cases ha
      rfl
    · cases ha
      split_ifs <;> rfl
    · cases ha
      exact health_publish_of_terminal hterm _
    · cases ha
      rfl
    · cases ha
      exact health_publish_of_terminal hterm _
    · cases ha
      rfl
    · cases ha
  | read =>
    obtain ⟨_, -, rfl⟩ := Option.map_eq_some_iff.mp ha
    rfl
  | close =>
    obtain rfl := Option.some.inj ha
    rfl

theorem run_health {c' : Capture} (hterm : c.health.isTerminal = true)
    (h : StepSystem.Reachable (Capture.Step src) c c') : c'.health = c.health :=
  StepSystem.reachable_induction (I := fun later => later.health = c.health) h rfl
    fun _ _ heq hstep => (step_health (by rw [heq, hterm]) hstep).trans heq

/-- What a capture owes to the bytes it was pushed, and to its consumer. -/
structure LosesNothing (src : CaptureSource) (c : Capture) : Prop where
  /-- What left the producer is what it was pushed, up to the bytes that still wait. -/
  carried : concatBytes (emitted c.log) ++ c.pending = pushed c.log
  /-- Once it has flushed, nothing but the bytes of a cut frame is left behind. -/
  cut : c.pc.flushed = true → concatBytes (emitted c.log) =
    (pushed c.log).take ((pushed c.log).length - (pushed c.log).length % src.frameBytes)
  /-- The ring takes every chunk until it overloads or the consumer goes. -/
  taken : overload c.log = none → .closed ∉ c.log → accepted c.log = emitted c.log
  delivered : .closed ∉ c.log → delivered c.log ++ c.ring.queue = accepted c.log
  faults : .closed ∉ c.log → faults c.log ++ c.ring.fault.toList = (outcome c.log).join.toList
  once : (Audio.faults c.log).length ≤ 1
  /-- Chunks in order, the fault behind them, the end behind both: what each read owes its past. -/
  lawful : History.Lawful (Obeys c.ring.maxBytes) c.log
  overloaded : ∀ chunk err, .emitted chunk (.overloaded err) ∈ c.log →
    outcome c.log = some (some err) ∧ ∃ seconds, err = .overloaded seconds
  /-- A consumer that reads on is never left waiting once capture is over. -/
  drains : (outcome c.log).isSome → ∃ r, c.ring.Reads
    (c.ring.queue.map .chunk ++ c.ring.fault.toList.map .fault ++ [.ended]) r
  bytes : c.ring.queuedBytes = byteCount c.ring.queue ∧ c.ring.queuedBytes ≤ c.ring.maxBytes ∧
    c.ring.maxBytes = max src.maxBytes 1
  discarded : .closed ∈ c.log → c.ring.queue = [] ∧ c.ring.fault = none ∧ c.ring.queuedBytes = 0
  /-- Between two calls the health tells of an overload, and at last of the outcome. -/
  idle : c.pc = .idle → Shows c.health (outcome c.log).join ∧ outcome c.log ≠ some none
  concluded : c.pc = .concluded → ∃ fault, outcome c.log = some fault ∧ Ends c.log c.health fault

theorem faults_length_le_one {maxBytes : ℕ} {log : List Event}
    (h : History.Lawful (Obeys maxBytes) log) : (faults log).length ≤ 1 := by
  induction log using List.reverseRecOn with
  | nil => exact Nat.zero_le 1
  | append_singleton log e ih =>
    obtain ⟨hlog, he⟩ := History.lawful_concat.mp h
    rw [faults_concat, List.length_append]
    cases hfault : e.fault? with
    | none => exact ih hlog
    | some err =>
      obtain rfl : e = .read (.fault err) := by
        unfold Event.fault? at hfault
        split at hfault
        · exact congrArg (fun err => Event.read (.fault err)) (Option.some.inj hfault)
        · cases hfault
      rw [he.2.2.1]
      exact Nat.le_refl 1

theorem Account.cut (h : Account src c) (hflushed : c.pc.flushed = true) :
    concatBytes (emitted c.log) =
      (pushed c.log).take ((pushed c.log).length - (pushed c.log).length % src.frameBytes) := by
  have hwhole : src.frameBytes ∣ (concatBytes (emitted c.log)).length := by
    rw [length_concatBytes]
    exact dvd_byteCount h.carry.whole
  obtain ⟨n, hn⟩ := hwhole
  rw [← h.carry.carried, List.length_append, hn, Nat.mul_add_mod,
    Nat.mod_eq_of_lt (h.short hflushed), Nat.add_sub_cancel_right, ← hn, List.take_left]

theorem Account.losesNothing (h : Account src c) : LosesNothing src c where
  carried := h.carry.carried
  cut := h.cut
  taken := h.carry.kept
  delivered := h.flow.queue
  faults := h.flow.fault
  once := faults_length_le_one h.lawful
  lawful := by
    rw [h.budget]
    exact h.lawful
  overloaded := by
    intro chunk err hmem
    obtain ⟨past, later, hsplit⟩ := List.append_of_mem hmem
    obtain ⟨hnone, -, -, hseconds⟩ := h.lawful past _ later hsplit
    refine ⟨?_, hseconds⟩
    rw [hsplit, outcome, List.findSome?_append, show past.findSome? _ = none from hnone]
    rfl
  drains := fun hout => Ring.reads_done (h.flow.done.mpr hout)
  bytes := ⟨h.flow.bytes, h.flow.bound, h.budget⟩
  discarded := by
    intro hclosed
    obtain ⟨hqueue, hfault⟩ := h.flow.discarded hclosed
    refine ⟨hqueue, hfault, ?_⟩
    rw [h.flow.bytes, hqueue]
    rfl
  idle := by
    intro hpc
    obtain ⟨hshows, hrun⟩ := h.idle hpc
    rw [hrun]
    cases hover : overload c.log with
    | none =>
      rw [hover] at hshows
      exact ⟨hshows, nofun⟩
    | some err =>
      rw [hover] at hshows
      exact ⟨hshows, nofun⟩
  concluded := by
    intro hpc
    have htold := h.told
    rw [hpc] at htold
    exact htold

/-- **The ring and its producer lose nothing silently**, in any interleaving of pushes, an end of
capture, reads and a consumer that goes; and a terminal health is never left. -/
theorem capture_loses_nothing
    (h : StepSystem.Reachable (Capture.Step src) (Capture.start src) c) :
    LosesNothing src c ∧ ∀ c', StepSystem.Reachable (Capture.Step src) c c' →
      c.health.isTerminal = true → c'.health = c.health :=
  ⟨(run_account h).losesNothing, fun _ hlater hterm => run_health hterm hlater⟩

/-- A source whose ring has room for one frame. -/
def oneFrame : CaptureSource := { format := {}, ringDepth := 0, chunk := 0 }

/-- Two frames and a half are pushed; the second frame finds no room, and the consumer reads on. -/
theorem oneFrame_loses_nothing : ∃ c, (Capture.start oneFrame).perform oneFrame
      [.push [1, 2, 3, 4, 5], .advance, .advance, .advance, .advance, .advance, .advance,
        .read, .finish none, .advance, .advance, .advance, .advance, .read, .read] = some c ∧
    (c.pc = .concluded ∧ (delivered c.log).length = 1 ∧ (faults c.log).length = 1) ∧
    LosesNothing oneFrame c ∧
    ∀ c', StepSystem.Reachable (Capture.Step oneFrame) c c' →
      c.health.isTerminal = true → c'.health = c.health := by
  have hrun : (((Capture.start oneFrame).perform oneFrame
      [.push [1, 2, 3, 4, 5], .advance, .advance, .advance, .advance, .advance, .advance,
        .read, .finish none, .advance, .advance, .advance, .advance, .read, .read]).any fun c =>
      decide (c.pc = .concluded ∧ (delivered c.log).length = 1 ∧ (faults c.log).length = 1)) := by
    decide +kernel
  generalize hperform : (Capture.start oneFrame).perform oneFrame _ = reached at hrun
  cases reached with
  | none => cases hrun
  | some c =>
    exact ⟨c, rfl, of_decide_eq_true hrun,
      capture_loses_nothing (Capture.reachable_of_perform hperform)⟩

end Audio

end Myna
