import Mathlib.Algebra.Field.Rat
import Mathlib.Data.List.Basic
import Mathlib.Data.List.Range

/-!
# Myna — the IE115 encoder (`Ie115Encoder` of `myna.core.wire_ie115`)

Transcript events become server frames, and the frames of an utterance name its item. Ids are minted
by whoever comes first: the reader, which acknowledges a commit, or the adapter, which transcribes
audio that has not been committed yet.

* **`Encoder`** — the state, `commitFrames`, `frames` and `beginUtterance`;
* **`itemAt`** — the item of the `i`-th utterance, with the one before it;
* **`Paired`** — where the encoder stands after so many commits, in the `i`-th utterance: nothing
  named yet, the adapter ahead of the commit, or the commit ahead of the adapter;
* **`commitFrames_spec`**, **`frames_spec`**, **`beginUtterance_spec`** — what each entry point
  does there.
-/

namespace Myna

namespace Ie115

/-! ## Events -/

/-- `Segment`: a timestamped piece of the transcript. -/
structure Segment where
  start : ℚ
  stop : ℚ
  text : String
  score : Option ℚ := none
deriving DecidableEq

inductive Disposition
  | committed
  | unstable
deriving DecidableEq

/-- What an adapter emits. `other` is a value that is none of the four classes. -/
inductive TranscriptionEvent
  | progress (snippet : Option String) (phase : String) (warning warningCode : Option String)
  | final (text : String) (segments : List Segment) (disposition : Disposition)
      (segmentIndex : Option ℕ)
  | done (text : String) (segments : List Segment)
  | error (code message : String)
  | other (type : String)
deriving DecidableEq

/-- `event.type`. -/
def TranscriptionEvent.type : TranscriptionEvent → String
  | .progress .. => "transcription.progress"
  | .final .. => "transcription.final"
  | .done .. => "transcription.done"
  | .error .. => "transcription.error"
  | .other type => type

/-- `_TERMINAL`. -/
def TERMINAL : List String := ["transcription.done", "transcription.error"]

/-- What is wrong with an event that is not well formed: a field `_encode` cannot read, or one that
`json.dumps` cannot write. -/
inductive Fault
  | unreadable
  | unwritable
deriving DecidableEq

/-- An event as the adapter built it. Nothing checks the fields of an event before it is encoded. -/
structure Event where
  content : TranscriptionEvent
  fault : Option Fault := none
deriving DecidableEq

def Event.isTerminal (e : Event) : Bool := TERMINAL.contains e.content.type

/-- An event of the four classes, whose fields can be read and written. -/
def Event.isWellFormed (e : Event) : Bool :=
  match e.content with
  | .other _ => false
  | _ => e.fault = none

/-- An event whose frame names the utterance's item. -/
def Event.isNaming (e : Event) : Bool :=
  match e.content with
  | .final .. => true
  | .done .. => true
  | _ => false

/-! ## Frames -/

/-- `_Item`: an utterance's id and the item minted before it. -/
structure Item where
  id : String
  previous : Option String
deriving DecidableEq

/-- The server frames that follow `session.updated`. -/
inductive Frame
  | committed (itemId : String) (previousItemId : Option String)
  | created (itemId : String) (previousItemId : Option String)
  | status (state : String) (snippet warning warningCode : Option String)
  | delta (itemId : String) (contentIndex : ℕ) (text : String) (disposition : Disposition)
      (segmentIndex : Option ℕ) (segments : List Segment)
  | completed (itemId : String) (contentIndex : ℕ) (transcript : String) (seconds : ℚ)
      (segments : List Segment)
  | error (type code message : String)
deriving DecidableEq

namespace Frame

/-- The item that a frame of the transcription names. -/
def names : Frame → Option String
  | .delta itemId .. => some itemId
  | .completed itemId .. => some itemId
  | _ => none

/-- The item a frame announces. -/
def creation : Frame → Option Item
  | .created itemId previousItemId => some ⟨itemId, previousItemId⟩
  | _ => none

/-- The item a frame acknowledges. -/
def acknowledgement : Frame → Option Item
  | .committed itemId previousItemId => some ⟨itemId, previousItemId⟩
  | _ => none

/-- A frame that ends an utterance. `error` is the dialect's `failed`. -/
def isTerminal : Frame → Bool
  | .completed .. => true
  | .error .. => true
  | _ => false

end Frame

/-- Writing the frame of an event reads the fields of the event. -/
def Event.readable (e : Event) (frame : Frame) : Option Frame :=
  if e.fault = some .unreadable then none else some frame

/-- `_PHASE_TO_STATE`, with its default. -/
def phaseToState : String → String
  | "preparing" => "loading"
  | "ready" => "ready"
  | "transcribing" => "transcribing"
  | _ => "transcribing"

/-- `_ERROR_TO_IE115`, with its default. -/
def errorToIe115 (code : String) : String × String :=
  if code ∈ ["unsupported_audio_format", "unsupported_protocol_version", "language_not_supported",
      "model_not_available", "invalid_parameter"] then
    ("invalid_request_error", "invalid_parameter")
  else if code = "unknown_parameter" then ("invalid_request_error", "unknown_parameter")
  else ("server_error", "server_error")

/-- An optional string that Python takes for false is left out of the frame. -/
def truthy (text : Option String) : Option String := text.filter fun t => t ≠ ""

/-! ## The encoder -/

/-- `_item_created`. -/
def itemCreated (item : Item) : Frame := .created item.id item.previous

/-- The acknowledgement of a commit. -/
def itemCommitted (item : Item) : Frame := .committed item.id item.previous

/-- `Ie115Encoder`, and how many ids it has drawn. -/
structure Encoder where
  queued : List Item := []
  current : Option Item := none
  uncommitted : Option Item := none
  lastId : Option String := none
  announcements : List Frame := []
  minted : ℕ := 0
deriving DecidableEq

section

-- the draws of `uuid.uuid4().hex[:12]`
variable (hex : ℕ → String)

/-- The `n`-th id. -/
def itemId (n : ℕ) : String := "item_" ++ hex n

namespace Encoder

/-- `_mint`. -/
def mint (enc : Encoder) : Item × Encoder :=
  let item : Item := ⟨itemId hex enc.minted, enc.lastId⟩
  (item, { enc with
    lastId := some item.id
    announcements := enc.announcements ++ [itemCreated item]
    minted := enc.minted + 1 })

/-- `_announced`. -/
def announced (enc : Encoder) : List Frame × Encoder :=
  (enc.announcements, { enc with announcements := [] })

/-- `_item`. -/
def item (enc : Encoder) : String × Encoder :=
  match enc.current with
  | some item => (item.id, enc)
  | none =>
    match enc.queued with
    | item :: queued => (item.id, { enc with current := some item, queued := queued })
    | [] =>
      let (item, enc) := enc.mint hex
      (item.id, { enc with current := some item, uncommitted := some item })

/-- `begin_utterance`. -/
def beginUtterance (enc : Encoder) : Encoder :=
  let enc := if enc.current = none then { enc with queued := enc.queued.tail } else enc
  { enc with current := none }

/-- `commit_frames`. -/
def commitFrames (enc : Encoder) : List Frame × Encoder :=
  let (item, enc) := match enc.uncommitted with
    | some item => (item, enc)
    | none =>
      let (item, enc) := enc.mint hex
      (item, { enc with queued := enc.queued ++ [item] })
  let enc := { enc with uncommitted := none }
  let (announced, enc) := enc.announced
  (itemCommitted item :: announced, enc)

/-- `_encode`: the frame of an event, or nothing where it raises. A `final` and a `done` take their
item before they read a field of the event. -/
def encode (enc : Encoder) (e : Event) (audioSeconds : ℚ) : Option Frame × Encoder :=
  match e.content with
  | .progress snippet phase warning warningCode =>
    (e.readable (.status (phaseToState phase) (truthy snippet) (truthy warning)
      (truthy warningCode)),
      enc)
  | .final text segments disposition segmentIndex =>
    let (item, enc) := enc.item hex
    let segmentIndex := if disposition = .committed then segmentIndex else none
    (e.readable (.delta item 0 text disposition segmentIndex segments), enc)
  | .done text segments =>
    let (item, enc) := enc.item hex
    (e.readable (.completed item 0 text audioSeconds segments), enc)
  | .error code message =>
    let (etype, ecode) := errorToIe115 code
    (e.readable (.error etype ecode message), enc)
  | .other _ => (none, enc)

/-- `frames`: what to send for an event, in order, or nothing where it raises. What the event minted
before it raised stays queued for the next call. -/
def frames (enc : Encoder) (e : Event) (audioSeconds : ℚ) : Option (List Frame) × Encoder :=
  match enc.encode hex e audioSeconds with
  | (none, enc) => (none, enc)
  | (some frame, enc) =>
    let (announced, enc) := enc.announced
    (some (announced ++ [frame]), enc)

end Encoder

/-! ## The items in order -/

/-- The item minted as the `n`-th. -/
def itemAt : ℕ → Item
  | 0 => ⟨itemId hex 0, none⟩
  | n + 1 => ⟨itemId hex (n + 1), some (itemId hex n)⟩

/-- The items of the commits from the `i`-th to before the `c`-th. -/
def itemsFrom (i c : ℕ) : List Item := (List.range' i (c - i)).map (itemAt hex)

@[simp] theorem itemAt_id (n : ℕ) : (itemAt hex n).id = itemId hex n := by
  cases n <;> rfl

/-- Where the queue and the two slots stand in the `i`-th utterance, after `c` commits. -/
inductive Paired (i c : ℕ) (enc : Encoder) : Prop
  /-- Nothing of the utterance is named: its item heads the queue, if it is committed. -/
  | unnamed (hqueued : enc.queued = itemsFrom hex i c) (hcurrent : enc.current = none)
      (huncommitted : enc.uncommitted = none) (hle : i ≤ c) (hminted : enc.minted = c)
  /-- The adapter named it before its commit. -/
  | early (hqueued : enc.queued = []) (hcurrent : enc.current = some (itemAt hex i))
      (huncommitted : enc.uncommitted = some (itemAt hex i)) (hc : c = i)
      (hminted : enc.minted = i + 1)
  /-- The adapter named it, and it is committed. -/
  | named (hqueued : enc.queued = itemsFrom hex (i + 1) c)
      (hcurrent : enc.current = some (itemAt hex i)) (huncommitted : enc.uncommitted = none)
      (hlt : i < c) (hminted : enc.minted = c)

/-- **Where the encoder stands** in the `i`-th utterance, after `c` commits. An announcement waits
only for an item the adapter minted, where the event it minted it for could not be encoded. -/
structure Stands (i c : ℕ) (enc : Encoder) : Prop where
  paired : Paired hex i c enc
  chained : enc.lastId = (itemAt hex enc.minted).previous
  pending : enc.announcements = [] ∨
    enc.announcements = [itemCreated (itemAt hex i)] ∧ enc.uncommitted = some (itemAt hex i)

/-- The announcements of the items from the `m`-th to before the `n`-th. -/
def creations (m n : ℕ) : List Frame := (itemsFrom hex m n).map itemCreated

/-- What is announced, and what still waits, is what waited and what was minted. -/
def Announces (enc : Encoder) (out : List Frame) (enc' : Encoder) : Prop :=
  enc.minted ≤ enc'.minted ∧
    out ++ enc'.announcements = enc.announcements ++ creations hex enc.minted enc'.minted

variable {hex} {i c : ℕ} {enc enc' : Encoder} {e : Event} {seconds : ℚ}

@[simp] theorem creation_itemCreated (item : Item) : (itemCreated item).creation = some item := rfl

@[simp] theorem acknowledgement_itemCreated (item : Item) :
    (itemCreated item).acknowledgement = none := rfl

@[simp] theorem names_itemCreated (item : Item) : (itemCreated item).names = none := rfl

@[simp] theorem isTerminal_itemCreated (item : Item) : (itemCreated item).isTerminal = false := rfl

@[simp] theorem itemsFrom_self (n : ℕ) : itemsFrom hex n n = [] := by
  simp [itemsFrom]

theorem itemsFrom_cons (h : i < c) :
    itemsFrom hex i c = itemAt hex i :: itemsFrom hex (i + 1) c := by
  rw [itemsFrom, itemsFrom, show c - i = c - (i + 1) + 1 by omega, List.range'_succ, List.map_cons]

theorem itemsFrom_concat (h : i ≤ c) :
    itemsFrom hex i (c + 1) = itemsFrom hex i c ++ [itemAt hex c] := by
  rw [itemsFrom, itemsFrom, show c + 1 - i = c - i + 1 by omega, List.range'_concat,
    List.map_append,
    Nat.one_mul, Nat.add_sub_cancel' h]
  rfl

theorem itemsFrom_append {m n : ℕ} (him : i ≤ m) (hmn : m ≤ n) :
    itemsFrom hex i m ++ itemsFrom hex m n = itemsFrom hex i n := by
  induction n, hmn using Nat.le_induction with
  | base => rw [itemsFrom_self, List.append_nil]
  | succ n hmn ih => rw [itemsFrom_concat hmn,
    itemsFrom_concat (him.trans hmn), ← List.append_assoc, ih]

/-! ## What the entry points do -/

/-- **The next item.** Minting draws the next id and announces the item. -/
theorem mint_eq (h : enc.lastId = (itemAt hex enc.minted).previous) :
    enc.mint hex = (itemAt hex enc.minted, { enc with
      lastId := (itemAt hex (enc.minted + 1)).previous
      announcements := enc.announcements ++ [itemCreated (itemAt hex enc.minted)]
      minted := enc.minted + 1 }) := by
  have hitem : (⟨itemId hex enc.minted, enc.lastId⟩ : Item) = itemAt hex enc.minted := by
    rw [h]
    cases enc.minted <;> rfl
  rw [Encoder.mint, hitem, itemAt_id]
  rfl

theorem Paired.le (h : Paired hex i c enc) : i ≤ c := by
  cases h with
  | unnamed _ _ _ hle _ => exact hle
  | early _ _ _ hc _ => exact hc.ge
  | named _ _ _ hlt _ => exact hlt.le

/-- An utterance that is named has its item. -/
theorem Paired.lt_minted (h : Paired hex i c enc) (hnamed : enc.current ≠ none) :
    i < enc.minted := by
  cases h with
  | unnamed _ hcurrent _ _ _ => exact absurd hcurrent hnamed
  | early _ _ _ _ hminted => omega
  | named _ _ _ hlt hminted => omega

/-- Every commit has its item, and the adapter is at most one ahead. -/
theorem Paired.minted (h : Paired hex i c enc) : c ≤ enc.minted ∧ enc.minted ≤ c + 1 := by
  cases h <;> omega

/-- The adapter is ahead only in the utterance that the next commit closes. -/
theorem Paired.minted_eq (h : Paired hex i c enc) (hlt : i < c) : enc.minted = c := by
  cases h <;> omega

theorem stands_init : Stands hex 0 0 {} :=
  ⟨.unnamed rfl rfl rfl le_rfl rfl, rfl, .inl rfl⟩

/-- Nothing waits to be announced unless the adapter is ahead. -/
theorem Stands.silent (h : Stands hex i c enc) (hnone : enc.uncommitted = none) :
    enc.announcements = [] := by
  rcases h.pending with hsilent | ⟨-, hsome⟩
  · exact hsilent
  · rw [hnone] at hsome
    cases hsome

/-- Telling the announcements that wait leaves everything else. -/
theorem Stands.announce (h : Stands hex i c enc) :
    Stands hex i c { enc with announcements := [] } := by
  refine ⟨?_, h.chained, .inl rfl⟩
  have hpaired := h.paired
  cases hpaired with
  | unnamed hqueued hcurrent huncommitted hle hminted =>
    exact .unnamed hqueued hcurrent huncommitted hle hminted
  | early hqueued hcurrent huncommitted hc hminted =>
    exact .early hqueued hcurrent huncommitted hc hminted
  | named hqueued hcurrent huncommitted hlt hminted =>
    exact .named hqueued hcurrent huncommitted hlt hminted

theorem announces_refl (h : enc'.minted = enc.minted)
    (ha : enc'.announcements = enc.announcements) :
    Announces hex enc [] enc' := by
  refine ⟨h.ge, ?_⟩
  rw [h, ha, creations, itemsFrom_self, List.nil_append, List.map_nil, List.append_nil]

theorem creations_one (n : ℕ) : creations hex n (n + 1) = [itemCreated (itemAt hex n)] := by
  rw [creations, itemsFrom_concat le_rfl, itemsFrom_self]
  rfl

/-- **The item an event takes** is the utterance's: the one it has, the one its commit left at the
head of the queue, or the next one. -/
theorem item_spec (h : Stands hex i c enc) :
    ∃ enc', enc.item hex = (itemId hex i, enc') ∧ Stands hex i c enc' ∧
      enc'.current = some (itemAt hex i) ∧ Announces hex enc [] enc' := by
  have hpaired := h.paired
  cases hpaired with
  | unnamed hqueued hcurrent huncommitted hle hminted =>
    rcases hle.lt_or_eq with hlt | rfl
    · -- the commit came first
      rw [itemsFrom_cons hlt] at hqueued
      refine ⟨{ enc with current := some (itemAt hex i), queued := itemsFrom hex (i + 1) c }, ?_,
        ⟨?_, h.chained, .inl (h.silent huncommitted)⟩, rfl, announces_refl rfl rfl⟩
      · rw [Encoder.item, hcurrent, hqueued, ← itemAt_id]
      · exact .named rfl rfl huncommitted hlt hminted
    · -- the adapter comes first
      rw [itemsFrom_self] at hqueued
      refine ⟨{ enc with
          queued := []
          current := some (itemAt hex i)
          uncommitted := some (itemAt hex i)
          lastId := (itemAt hex (i + 1)).previous
          announcements := [itemCreated (itemAt hex i)]
          minted := i + 1 }, ?_, ⟨?_, rfl, .inr ⟨rfl, rfl⟩⟩, rfl, ?_, ?_⟩
      · simp only [Encoder.item, hcurrent, hqueued, mint_eq h.chained,
          h.silent huncommitted, hminted,
          itemAt_id, List.nil_append]
      · exact .early rfl rfl rfl rfl rfl
      · exact hminted.trans_le (Nat.le_succ i)
      · rw [h.silent huncommitted, hminted, creations_one]
  | early hqueued hcurrent huncommitted hc hminted =>
    exact ⟨enc, by rw [Encoder.item, hcurrent, ← itemAt_id], h, hcurrent, announces_refl rfl rfl⟩
  | named hqueued hcurrent huncommitted hlt hminted =>
    exact ⟨enc, by rw [Encoder.item, hcurrent, ← itemAt_id], h, hcurrent, announces_refl rfl rfl⟩

/-- **A commit** acknowledges the item of its own place, and announces it if the adapter has not. -/
theorem commitFrames_spec (h : Stands hex i c enc) :
    ∃ out enc', enc.commitFrames hex =
        (itemCommitted (itemAt hex c) :: out, enc') ∧
      (out = [] ∨ out = [itemCreated (itemAt hex c)]) ∧
      Stands hex i (c + 1) enc' ∧ enc'.announcements = [] ∧ Announces hex enc out enc' := by
  -- no event has minted the item of this commit
  have hfresh : enc.uncommitted = none → enc.minted = c →
      enc.commitFrames hex = ([itemCommitted (itemAt hex c), itemCreated (itemAt hex c)], { enc with
          queued := enc.queued ++ [itemAt hex c]
          uncommitted := none
          lastId := (itemAt hex (c + 1)).previous
          announcements := []
          minted := c + 1 }) := by
    intro huncommitted hminted
    rw [Encoder.commitFrames, huncommitted, mint_eq h.chained, h.silent huncommitted, hminted]
    rfl
  have hpaired := h.paired
  cases hpaired with
  | unnamed hqueued hcurrent huncommitted hle hminted =>
    refine ⟨_, _, hfresh huncommitted hminted, .inr rfl, ⟨?_, rfl, .inl rfl⟩, rfl, ?_, ?_⟩
    · refine .unnamed ?_ hcurrent rfl (by omega) rfl
      rw [hqueued, itemsFrom_concat hle]
    · exact hminted.trans_le (Nat.le_succ c)
    · rw [h.silent huncommitted, hminted, creations_one]
      rfl
  | early hqueued hcurrent huncommitted hc hminted =>
    subst hc
    refine ⟨enc.announcements, { enc with uncommitted := none, announcements := [] }, ?_,
      h.pending.imp_right And.left, ⟨?_, h.chained, .inl rfl⟩, rfl, le_rfl, ?_⟩
    · rw [Encoder.commitFrames, huncommitted]
      rfl
    · exact .named (by rw [itemsFrom_self]; exact hqueued) hcurrent rfl (Nat.lt_succ_self _) hminted
    · simp [creations]
  | named hqueued hcurrent huncommitted hlt hminted =>
    refine ⟨_, _, hfresh huncommitted hminted, .inr rfl, ⟨?_, rfl, .inl rfl⟩, rfl, ?_, ?_⟩
    · refine .named ?_ hcurrent rfl (by omega) rfl
      rw [hqueued, itemsFrom_concat hlt]
    · exact hminted.trans_le (Nat.le_succ c)
    · rw [h.silent huncommitted, hminted, creations_one]
      rfl

/-- What an encoded event leaves: its frame, which is no announcement and no acknowledgement, names
the utterance's item if it names one, and is terminal if the event is. -/
structure Encoded (hex : ℕ → String) (i : ℕ) (e : Event) (frame : Frame)
    (enc : Encoder) : Prop where
  readable : e.fault ≠ some .unreadable
  known : ∀ type, e.content ≠ .other type
  creation : frame.creation = none
  acknowledgement : frame.acknowledgement = none
  terminal : frame.isTerminal = e.isTerminal
  naming : frame.names.isSome = e.isNaming
  names : ∀ id, frame.names = some id → id = itemId hex i ∧ enc.current = some (itemAt hex i)

theorem readable_eq_some {frame f : Frame} :
    e.readable frame = some f ↔ e.fault ≠ some .unreadable ∧ frame = f := by
  rw [Event.readable]
  split_ifs with hfault
  · simp [hfault]
  · simp [hfault]

theorem readable_eq_none {frame : Frame} :
    e.readable frame = none ↔ e.fault = some .unreadable := by
  rw [Event.readable]
  split_ifs with hfault
  · simp [hfault]
  · simp [hfault]

/-- **One event.** -/
theorem encode_spec (h : Stands hex i c enc) (e : Event) (seconds : ℚ) :
    ∃ frame enc', enc.encode hex e seconds = (frame, enc') ∧ Stands hex i c enc' ∧
      Announces hex enc [] enc' ∧ (∀ f, frame = some f → Encoded hex i e f enc') ∧
      (frame = none → e.fault = some .unreadable ∨ ∃ type, e.content = .other type) := by
  obtain ⟨encItem, hitem, hstands, hcurrent, hannounces⟩ := item_spec h
  obtain ⟨content, fault⟩ := e
  cases content with
  | progress snippet phase warning warningCode =>
    refine ⟨_, enc, rfl, h, announces_refl rfl rfl, ?_, fun hnone =>
      .inl (readable_eq_none.mp hnone)⟩
    intro f hf
    obtain ⟨hfault, rfl⟩ := readable_eq_some.mp hf
    exact ⟨hfault, nofun, rfl, rfl, rfl, rfl, nofun⟩
  | final text segments disposition segmentIndex =>
    refine ⟨_, encItem, by rw [Encoder.encode, hitem], hstands, hannounces, ?_,
      fun hnone => .inl (readable_eq_none.mp hnone)⟩
    intro f hf
    obtain ⟨hfault, rfl⟩ := readable_eq_some.mp hf
    refine ⟨hfault, nofun, rfl, rfl, rfl, rfl, ?_⟩
    intro id hid
    exact ⟨(Option.some.inj hid).symm, hcurrent⟩
  | done text segments =>
    refine ⟨_, encItem, by rw [Encoder.encode, hitem], hstands, hannounces, ?_,
      fun hnone => .inl (readable_eq_none.mp hnone)⟩
    intro f hf
    obtain ⟨hfault, rfl⟩ := readable_eq_some.mp hf
    refine ⟨hfault, nofun, rfl, rfl, rfl, rfl, ?_⟩
    intro id hid
    exact ⟨(Option.some.inj hid).symm, hcurrent⟩
  | error code message =>
    refine ⟨_, enc, rfl, h, announces_refl rfl rfl, ?_, fun hnone =>
      .inl (readable_eq_none.mp hnone)⟩
    intro f hf
    obtain ⟨hfault, rfl⟩ := readable_eq_some.mp hf
    exact ⟨hfault, nofun, rfl, rfl, rfl, rfl, nofun⟩
  | other type =>
    exact ⟨none, enc, rfl, h, announces_refl rfl rfl, nofun, fun _ => .inr ⟨type, rfl⟩⟩

/-- **What is sent for an event**: the announcements that wait, and its frame after them. -/
theorem frames_spec (h : Stands hex i c enc) (e : Event) (seconds : ℚ) :
    ∃ out enc', enc.frames hex e seconds = (out, enc') ∧ Stands hex i c enc' ∧
      (out = none → Announces hex enc [] enc' ∧
        (e.fault = some .unreadable ∨ ∃ type, e.content = .other type)) ∧
      ∀ fs, out = some fs → ∃ announced frame, fs = announced ++ [frame] ∧
        (announced = [] ∨ announced = [itemCreated (itemAt hex i)]) ∧
        Announces hex enc announced enc' ∧ enc'.announcements = [] ∧
          Encoded hex i e frame enc' := by
  obtain ⟨frame, enc', hencode, hstands, hannounces, hsome, hnone⟩ := encode_spec h e seconds
  cases frame with
  | none =>
    refine ⟨none, enc', by rw [Encoder.frames, hencode], hstands, ?_, nofun⟩
    exact fun _ => ⟨hannounces, hnone rfl⟩
  | some frame =>
    refine ⟨some (enc'.announcements ++ [frame]), { enc' with announcements := [] }, ?_,
      hstands.announce, nofun, ?_⟩
    · rw [Encoder.frames, hencode]
      rfl
    · intro fs hfs
      obtain ⟨hmono, hout⟩ := hannounces
      have hframe := hsome frame rfl
      refine ⟨enc'.announcements, frame, (Option.some.inj hfs).symm,
        hstands.pending.imp_right And.left, ⟨hmono, ?_⟩, rfl, ?_⟩
      · rw [← hout, List.append_nil, List.nil_append]
      · exact ⟨hframe.readable, hframe.known, hframe.creation, hframe.acknowledgement,
          hframe.terminal,
          hframe.naming, hframe.names⟩

/-- **The next utterance** takes the next item: the last one's is named, or dropped from the
queue. -/
theorem beginUtterance_spec (h : Stands hex i c enc) (hlt : i < c) :
    Stands hex (i + 1) c enc.beginUtterance ∧
      enc.beginUtterance.announcements = enc.announcements ∧
      enc.beginUtterance.minted = enc.minted := by
  have hpaired := h.paired
  cases hpaired with
  | unnamed hqueued hcurrent huncommitted hle hminted =>
    rw [Encoder.beginUtterance, if_pos hcurrent]
    refine ⟨⟨.unnamed ?_ rfl huncommitted hlt hminted, h.chained, .inl (h.silent huncommitted)⟩,
      rfl, rfl⟩
    rw [hqueued, itemsFrom_cons hlt, List.tail_cons]
  | early hqueued hcurrent huncommitted hc hminted => omega
  | named hqueued hcurrent huncommitted _ hminted =>
    rw [Encoder.beginUtterance, if_neg (by rw [hcurrent]; nofun)]
    exact ⟨⟨.unnamed hqueued rfl huncommitted hlt hminted, h.chained, .inl (h.silent huncommitted)⟩,
      rfl, rfl⟩

end

end Ie115

end Myna
