import Myna.Orchestrator.FsmRuns
import Myna.Lib.StepSystem

/-!
# Myna — the driver of a session (`run_session` of `myna_orchestrator::driver`)

The driver selects among the control channel, the backend's events, room in the transport, the
client's audio and a deadline, feeds what arrives to the state machine and performs its actions. An
interleaving is the sequence of the `Arrival`s its select wakes up for.

* **`Driver.next`** — one turn of either loop: the handshake's or the session's;
* **`Sound`** — what the log of a run says of the state it led to;
* **`run_session_delivers`** — audio is handed over in order and once, in every interleaving.
-/

namespace Myna

namespace Orchestrator

/-- Ordered client input: audio, then end-of-audio. -/
inductive OrchestratorInput
  | audio (chunk : PcmChunk)
  | endOfAudio
deriving DecidableEq

/-- Out-of-band client input. -/
inductive OrchestratorControl
  | abort
  | captureFailed (fault : Failure)
  | captureLost (fault : Failure)
  | captureEnded
deriving DecidableEq

/-- What is sent up to the backend, in order. -/
inductive Outbound
  | audio (chunk : PcmChunk)
  | finish
deriving DecidableEq

/-- What a select of the driver wakes up for. `none` is a channel that closed. -/
inductive Arrival
  | control (control : Option OrchestratorControl)
  | expired
  | opened (ok : Bool)
  | incoming (event : Option (Except String TranscriptionEvent))
  | activity
  | permit (granted : Bool)
  | client (input : Option OrchestratorInput)

/-- What the driver does to the outside. -/
inductive Effect
  | hand (item : Outbound)
  | abort
  | emit (event : OrchestratorEvent)

/-- The locals of `run_session`. `armed` is whether the deadline has been set, `opened` whether the
handshake is over. -/
structure Driver where
  fsm : Fsm := {}
  armed : Bool := false
  controlOpen : Bool := true
  inputsOpen : Bool := true
  opened : Bool := false
  outbound : Option Outbound := none

/-- Where `run_session` is: in its loops, past its end, or stopped by its own assertion. -/
inductive Status
  | running (d : Driver)
  | returned (outcome : SessionOutcome)
  | refused
  | panicked

namespace Driver

/-- `Deadline::arm`. -/
def arm (d : Driver) : Driver := { d with armed := true }

/-- `Deadline::progress`: a deadline that is set is set anew. -/
def progress (d : Driver) : Driver := if d.armed then d.arm else d

/-- `queue`: the slot is asserted to be empty. -/
def queue (outbound : Option Outbound) (item : Outbound) : Option Outbound :=
  if outbound.isNone then some item else none

/-- Execute the actions; `none` where the assertion of `queue` fails. -/
def apply (opened : Bool) : List Action → Option Outbound → Option (List Effect × Option Outbound)
  | [], outbound => some ([], outbound)
  | .forwardAudio chunk :: rest, outbound =>
    (queue outbound (.audio chunk)).bind fun item => apply opened rest (some item)
  | .sendFinish :: rest, outbound =>
    (queue outbound .finish).bind fun item => apply opened rest (some item)
  | .sendAbort :: rest, outbound =>
    (apply opened rest outbound).map fun (out, outbound) =>
      (if opened then .abort :: out else out, outbound)
  | .emit event :: rest, outbound =>
    (apply opened rest outbound).map fun (out, outbound) => (.emit event :: out, outbound)

/-- `control_input`. -/
def controlInput (d : Driver) : Option OrchestratorControl → Driver × Option Input
  | some .abort => (d, some .abort)
  | some (.captureFailed fault) => (d, some (.captureFailed fault))
  | some (.captureLost fault) => (d.arm, some (.captureLost fault))
  | some .captureEnded => (d.arm, none)
  | none => ({ d with controlOpen := false }, none)

def incomingInput : Option (Except String TranscriptionEvent) → Input
  | some (.ok event) => .backend event
  | some (.error err) => .backendClosed (some err)
  | none => .backendClosed none

/-- The select: the branch of an arrival, if it is enabled, and the input it yields. Opening is the
handshake's. -/
def select (d : Driver) : Arrival → Option (List Effect × Driver × Option Input)
  | .control control => if d.controlOpen then some ([], d.controlInput control) else none
  | .expired => if d.armed then some ([], d, some .stalled) else none
  | .opened _ => none
  | .incoming event =>
    if d.opened then some ([], d.progress, some (incomingInput event)) else none
  | .activity => if d.opened then some ([], d.progress, none) else none
  | .permit granted =>
    if d.opened then d.outbound.map fun item =>
      -- a refused permit loses the item: the transport is gone
      if granted then ([.hand item], { d.progress with outbound := none }, none)
      else ([], { d with outbound := none }, none)
    else none
  | .client input =>
    if d.opened ∧ d.inputsOpen ∧ d.outbound.isNone ∧ d.fsm.acceptsAudio then
      some ([], match input with
        | some (.audio chunk) => (d, some (.audio chunk))
        | some .endOfAudio => (d.arm, some .endOfAudio)
        | none => ({ d with inputsOpen := false }, none))
    else none

/-- Feed an input to the machine, execute its actions, and return once the session is terminal. -/
def react (tr : String → String) (d : Driver) (input : Input) : List Effect × Status :=
  let (fsm, actions) := d.fsm.onInput tr input
  match apply d.opened actions d.outbound with
  | none => ([], .panicked)
  | some (out, outbound) => (out, match fsm.outcome tr with
    | some outcome => .returned outcome
    | none => .running { d with fsm := fsm, outbound := outbound })

/-- One turn of the loop the driver is in. -/
def next (tr : String → String) (d : Driver) : Arrival → Option (List Effect × Status)
  | .opened ok =>
    if d.opened then none
    else some ([], if ok then .running { d with opened := true } else .refused)
  | arrival => (d.select arrival).map fun (out, d, input) =>
    match input with
    | none => (out, .running d)
    | some input =>
      let (out', status) := d.react tr input
      (out ++ out', status)

end Driver

/-! ## Runs -/

/-- What happened: something arrived, or the driver did something. -/
inductive Moment
  | arrived (arrival : Arrival)
  | did (effect : Effect)

/-- The moments of one turn. -/
def turn (arrival : Arrival) (out : List Effect) : List Moment := .arrived arrival :: out.map .did

structure Run where
  log : List Moment
  status : Status

/-- A channel that has refused a permit is closed, and grants none again. -/
def Available (log : List Moment) (arrival : Arrival) : Prop :=
  arrival = .permit true → .arrived (.permit false) ∉ log

def Run.init : Run := ⟨[], .running {}⟩

def Run.Step (tr : String → String) (r r' : Run) : Prop :=
  ∃ d arrival out, r.status = .running d ∧ Available r.log arrival ∧
    d.next tr arrival = some (out, r'.status) ∧ r'.log = r.log ++ turn arrival out

/-- The client's input read so far, as what is to be sent up for it. -/
def clientItems (log : List Moment) : List Outbound :=
  log.filterMap fun
    | .arrived (.client (some (.audio chunk))) => some (.audio chunk)
    | .arrived (.client (some .endOfAudio)) => some .finish
    | _ => none

/-- The audio of the client read so far. -/
def clientAudio (log : List Moment) : List PcmChunk :=
  log.filterMap fun
    | .arrived (.client (some (.audio chunk))) => some chunk
    | _ => none

/-- What the transport was handed. -/
def handed (log : List Moment) : List Outbound :=
  log.filterMap fun | .did (.hand item) => some item | _ => none

def handedAudio (log : List Moment) : List PcmChunk :=
  log.filterMap fun | .did (.hand (.audio chunk)) => some chunk | _ => none

/-- The client or the driver has aborted the session. -/
def Aborted (log : List Moment) : Prop :=
  .arrived (.control (some .abort)) ∈ log ∨ .did .abort ∈ log

/-- Capture has ended, by its end, its fault or the end of its audio. -/
def CaptureOver (log : List Moment) : Prop :=
  .arrived (.control (some .captureEnded)) ∈ log ∨
  (∃ fault, .arrived (.control (some (.captureLost fault))) ∈ log) ∨
  .arrived (.client (some .endOfAudio)) ∈ log

/-- What a moment owes to the past. -/
def Obeys (past : List Moment) : Moment → Prop
  | .did (.hand _) => ¬ Aborted past
  | .arrived .expired => CaptureOver past
  | _ => True

section

variable {log : List Moment} {arrival : Arrival} {out : List Effect}

@[simp] theorem clientItems_append (l l' : List Moment) :
    clientItems (l ++ l') = clientItems l ++ clientItems l' := List.filterMap_append

@[simp] theorem clientAudio_append (l l' : List Moment) :
    clientAudio (l ++ l') = clientAudio l ++ clientAudio l' := List.filterMap_append

@[simp] theorem handed_append (l l' : List Moment) : handed (l ++ l') = handed l ++ handed l' :=
  List.filterMap_append

@[simp] theorem clientItems_turn (out : List Effect) :
    clientItems (turn arrival out) = clientItems [.arrived arrival] := by
  have hout : clientItems (out.map .did) = [] := by simp [clientItems, List.filterMap_map]
  rw [turn, ← List.singleton_append, clientItems_append, hout, List.append_nil]

@[simp] theorem clientAudio_turn (out : List Effect) :
    clientAudio (turn arrival out) = clientAudio [.arrived arrival] := by
  have hout : clientAudio (out.map .did) = [] := by simp [clientAudio, List.filterMap_map]
  rw [turn, ← List.singleton_append, clientAudio_append, hout, List.append_nil]

/-- Effects that hand nothing over. -/
def Quiet (out : List Effect) : Prop := ∀ e ∈ out, ∀ item, e ≠ .hand item

theorem handed_turn (hout : Quiet out) : handed (turn arrival out) = [] := by
  have hdid : handed (out.map .did) = [] := by
    rw [handed, List.filterMap_map, List.filterMap_eq_nil_iff]
    intro e he
    cases e with
    | hand item => exact absurd rfl (hout _ he item)
    | abort => rfl
    | emit event => rfl
  rw [turn, ← List.singleton_append, handed_append, hdid]
  rfl

/-! ## The actions -/

variable {tr : String → String} {d : Driver} {input : Input}

/-- Actions that send nothing up leave the slot as it is, and no assertion fails. -/
theorem apply_spec (opened : Bool) (outbound : Option Outbound) (actions : List Action)
    (hsends : ∀ a ∈ actions, a.sends = false) :
    ∃ out, Driver.apply opened actions outbound = some (out, outbound) ∧ Quiet out ∧
      (.sendAbort ∉ actions → .abort ∉ out) := by
  induction actions with
  | nil => exact ⟨[], rfl, by simp [Quiet], by simp⟩
  | cons a rest ih =>
    obtain ⟨out, happly, hquiet, habort⟩ := ih fun b hb => hsends b (List.mem_cons_of_mem _ hb)
    have ha := hsends a List.mem_cons_self
    cases a with
    | forwardAudio chunk => cases ha
    | sendFinish => cases ha
    | sendAbort =>
      refine ⟨if opened then .abort :: out else out, by rw [Driver.apply, happly]; rfl, ?_, by simp⟩
      split_ifs
      · exact List.forall_mem_cons.mpr ⟨fun item => by simp, hquiet⟩
      · exact hquiet
    | emit event =>
      refine ⟨.emit event :: out, by rw [Driver.apply, happly]; rfl,
        List.forall_mem_cons.mpr ⟨fun item => by simp, hquiet⟩, fun hmem => ?_⟩
      have hrest := habort fun h => hmem (List.mem_cons_of_mem _ h)
      simpa using hrest

theorem outcome_eq_none {s : Fsm} : s.outcome tr = none ↔ s.session.isTerminal = false := by
  unfold Fsm.outcome
  cases s.session <;> simp [SessionState.isTerminal]

/-- An input other than the client's own hands nothing over; a session that goes on was not
aborted. -/
theorem react_spec (tr : String → String) {inputs : List Input} {actions : List Action}
    (hgood : Good inputs actions d.fsm)
    (haudio : ∀ chunk, input ≠ .audio chunk) (hend : input ≠ .endOfAudio) :
    (d.react tr input).2 ≠ .panicked ∧ Quiet (d.react tr input).1 ∧
      ∀ d', (d.react tr input).2 = .running d' →
        d' = { d with fsm := (d.fsm.onInput tr input).1 } ∧ d'.fsm.session.isTerminal = false ∧
          .abort ∉ (d.react tr input).1 := by
  have hsends : ∀ a ∈ (d.fsm.onInput tr input).2, a.sends = false := by
    intro a ha
    by_contra hsend
    rcases sends_mem ha (by simpa using hsend) with ⟨chunk, hchunk, -⟩ | ⟨hfinish, -⟩
    · exact haudio chunk hchunk
    · exact hend hfinish
  obtain ⟨out, happly, hquiet, habort⟩ := apply_spec d.opened d.outbound _ hsends
  have hafter := onInput_good tr hgood input
  rw [Driver.react]
  simp only [happly]
  cases houtcome : (d.fsm.onInput tr input).1.outcome tr with
  | some outcome => exact ⟨by simp, hquiet, fun d' h => by cases h⟩
  | none =>
    have hlive := outcome_eq_none.mp houtcome
    refine ⟨by simp, hquiet, fun d' h => ?_⟩
    obtain rfl := Status.running.inj h
    refine ⟨rfl, hlive, habort fun hmem => ?_⟩
    -- an abort ends the session
    exact hafter.not_over hlive ⟨_, List.mem_append_right _ hmem, rfl⟩

/-- The client's input goes through the open gate into the empty slot. -/
theorem react_audio (tr : String → String) (chunk : PcmChunk) (hgate : d.fsm.acceptsAudio = true)
    (hslot : d.outbound = none) :
    d.react tr (.audio chunk) = ([], .running { d with outbound := some (.audio chunk) }) := by
  have hactive : d.fsm.session = .active := (of_decide_eq_true hgate).1
  have hout : d.fsm.outcome tr = none := outcome_eq_none.mpr (by rw [hactive]; rfl)
  rw [Driver.react, Fsm.onInput, Fsm.onAudio, if_pos hgate, hslot]
  simp only [Driver.apply, Driver.queue, Option.isNone_none, if_true, Option.bind_some, hout]

theorem react_endOfAudio (tr : String → String) (hactive : d.fsm.session = .active)
    (hslot : d.outbound = none) :
    d.react tr .endOfAudio = ([], .running { d with
      fsm := { d.fsm with session := .finalizing }, outbound := some .finish }) := by
  rw [Driver.react, Fsm.onInput, Fsm.onEndOfAudio, if_pos hactive, hslot]
  rfl

/-! ## The log -/

/-- Whatever the driver came to: what was handed over is the beginning of what was read, which ends
at the end of audio. -/
structure Delivered (log : List Moment) : Prop where
  behind : handed log <+: clientItems log
  ordered : ∃ fin, clientItems log = (clientAudio log).map .audio ++ fin ∧
    (fin = [] ∨ fin = [.finish])
  lawful : History.Lawful Obeys log

/-- What the log of a run says of the driver it led to. -/
structure Sound (log : List Moment) (d : Driver) : Prop where
  good : ∃ inputs actions, Good inputs actions d.fsm ∧
    (.finish ∈ clientItems log → .sendFinish ∈ actions)
  live : d.fsm.session.isTerminal = false
  unaborted : ¬ Aborted log
  /-- All that was read was handed over, or waits in the slot. -/
  pipeline : .arrived (.permit false) ∉ log → clientItems log = handed log ++ d.outbound.toList
  armed : d.armed = true → CaptureOver log

theorem CaptureOver.append (h : CaptureOver log) (more : List Moment) :
    CaptureOver (log ++ more) := by
  rcases h with h | ⟨fault, h⟩ | h
  · exact Or.inl (List.mem_append_left _ h)
  · exact Or.inr (Or.inl ⟨fault, List.mem_append_left _ h⟩)
  · exact Or.inr (Or.inr (List.mem_append_left _ h))

/-- A turn that reads and hands over nothing. -/
theorem Delivered.quiet (h : Delivered log) (harrival : clientItems [.arrived arrival] = [])
    (haudio : clientAudio [.arrived arrival] = []) (hobeys : Obeys log (.arrived arrival))
    (hout : Quiet out) : Delivered (log ++ turn arrival out) := by
  refine ⟨?_, ?_, ?_⟩
  · rw [clientItems_append, clientItems_turn, harrival, handed_append, handed_turn hout]
    simpa using h.behind
  · rw [clientItems_append, clientItems_turn, harrival, clientAudio_append,
      clientAudio_turn, haudio]
    simpa using h.ordered
  · have hfirst := History.lawful_concat.mpr ⟨h.lawful, hobeys⟩
    have hall : History.Lawful Obeys (log ++ [.arrived arrival] ++ out.map .did) := by
      refine hfirst.append_free fun e he past => ?_
      obtain ⟨effect, heffect, rfl⟩ := List.mem_map.mp he
      cases effect with
      | hand item => exact absurd rfl (hout _ heffect item)
      | abort => trivial
      | emit event => trivial
    rwa [List.append_assoc] at hall

/-- The same, of the driver: the slot is as it was. -/
theorem Sound.quiet (tr : String → String) {d' : Driver} (h : Sound log d)
    (harrival : clientItems [.arrived arrival] = [])
    (habort : arrival ≠ .control (some .abort)) (hout : Quiet out) (hnoabort : .abort ∉ out)
    (hfsm : d'.fsm = d.fsm ∨ ∃ input, d'.fsm = (d.fsm.onInput tr input).1)
    (hlive : d'.fsm.session.isTerminal = false) (hslot : d'.outbound = d.outbound)
    (harmed : d'.armed = true → CaptureOver (log ++ turn arrival out)) :
    Sound (log ++ turn arrival out) d' := by
  obtain ⟨inputs, actions, hgood, hsent⟩ := h.good
  have hitems : clientItems (log ++ turn arrival out) = clientItems log := by
    rw [clientItems_append, clientItems_turn, harrival, List.append_nil]
  have hhanded : handed (log ++ turn arrival out) = handed log := by
    rw [handed_append, handed_turn hout, List.append_nil]
  have hdid : ∀ e, Moment.did e ∈ turn arrival out ↔ e ∈ out := by
    intro e
    simp [turn]
  refine ⟨?_, hlive, ?_, ?_, harmed⟩
  · rw [hitems]
    rcases hfsm with hsame | ⟨input, hstep⟩
    · exact ⟨inputs, actions, hsame ▸ hgood, hsent⟩
    · refine ⟨_, _, hstep ▸ onInput_good tr hgood input, fun hmem => ?_⟩
      exact List.mem_append_left _ (hsent hmem)
  · rintro (hmem | hmem)
    · rcases List.mem_append.mp hmem with hold | hnew
      · exact h.unaborted (Or.inl hold)
      · rcases List.mem_cons.mp hnew with heq | hdid'
        · exact habort (Moment.arrived.inj heq).symm
        · simp at hdid'
    · rcases List.mem_append.mp hmem with hold | hnew
      · exact h.unaborted (Or.inr hold)
      · exact hnoabort ((hdid _).mp hnew)
  · intro hopen
    rw [hitems, hhanded, hslot]
    exact h.pipeline fun hmem => hopen (List.mem_append_left _ hmem)

/-- An input of the outside world goes to the machine. -/
theorem react_keeps {d₁ : Driver} {status : Status} (h : Sound log d) (hd : Delivered log)
    (hreact : d₁.react tr input = (out, status))
    (harrival : clientItems [.arrived arrival] = []) (haudio : clientAudio [.arrived arrival] = [])
    (hobeys : Obeys log (.arrived arrival)) (hfsm : d₁.fsm = d.fsm)
      (hslot : d₁.outbound = d.outbound)
    (harmed : ∀ out, d₁.armed = true → CaptureOver (log ++ turn arrival out))
    (hinput : ∀ chunk, input ≠ .audio chunk) (hend : input ≠ .endOfAudio)
    (habort : arrival = .control (some .abort) →
      (d.fsm.onInput tr input).1.session.isTerminal = true) :
    Delivered (log ++ turn arrival out) ∧ status ≠ .panicked ∧
      ∀ d', status = .running d' → Sound (log ++ turn arrival out) d' := by
  obtain ⟨inputs, actions, hgood, -⟩ := h.good
  rw [← hfsm] at hgood habort
  obtain ⟨hpanic, hquiet, hrun⟩ := react_spec tr (d := d₁) hgood hinput hend
  rw [hreact] at hpanic hquiet hrun
  refine ⟨hd.quiet harrival haudio hobeys hquiet, hpanic, fun d' hd' => ?_⟩
  obtain ⟨rfl, hlive, hnoabort⟩ := hrun d' hd'
  refine h.quiet tr harrival ?_ hquiet hnoabort (Or.inr ⟨input, ?_⟩) hlive hslot
    (harmed out)
  · intro heq
    have hterminal := habort heq
    rw [hlive] at hterminal
    cases hterminal
  · show (d₁.fsm.onInput tr input).1 = (d.fsm.onInput tr input).1
    rw [hfsm]

theorem progress_spec (d : Driver) : d.progress.fsm = d.fsm ∧ d.progress.outbound = d.outbound ∧
    (d.progress.armed = true → d.armed = true) := by
  rw [Driver.progress]
  split_ifs with harmed
  · exact ⟨rfl, rfl, fun _ => harmed⟩
  · exact ⟨rfl, rfl, id⟩

/-- Nothing of an active session's audio has ended. -/
theorem Sound.not_finished (h : Sound log d) (hactive : d.fsm.session = .active) :
    .finish ∉ clientItems log := by
  obtain ⟨inputs, actions, hgood, hsent⟩ := h.good
  exact fun hmem => hgood.finish (hsent hmem) hactive

/-- Audio that has not ended goes on. -/
theorem Delivered.read (h : Delivered log) (hopen : .finish ∉ clientItems log)
    (input : OrchestratorInput) : Delivered (log ++ turn (.client (some input)) []) := by
  have hhanded : handed (log ++ turn (.client (some input)) []) = handed log := by
    rw [handed_append, handed_turn (by simp [Quiet]), List.append_nil]
  refine ⟨?_, ?_, History.lawful_concat.mpr ⟨h.lawful, trivial⟩⟩
  · rw [hhanded, clientItems_append]
    exact h.behind.trans (List.prefix_append _ _)
  · obtain ⟨fin, hitems, rfl | rfl⟩ := h.ordered
    · rw [clientItems_append, clientItems_turn, clientAudio_append, clientAudio_turn, hitems]
      cases input with
      | audio chunk => exact ⟨[], by simp [clientItems, clientAudio], Or.inl rfl⟩
      | endOfAudio => exact ⟨[.finish], by simp [clientItems, clientAudio], Or.inr rfl⟩
    · exact absurd (by rw [hitems]; simp) hopen

/-- What was aborted before a turn that does not abort, is what was aborted. -/
theorem aborted_turn (habort : arrival ≠ .control (some .abort)) (hnoabort : .abort ∉ out) :
    Aborted (log ++ turn arrival out) ↔ Aborted log := by
  have harrived : Moment.arrived (.control (some .abort)) ∉ turn arrival out := by
    intro hmem
    rcases List.mem_cons.mp hmem with heq | hdid
    · exact habort (Moment.arrived.inj heq).symm
    · simp at hdid
  have hdid : Moment.did .abort ∉ turn arrival out := by
    intro hmem
    rcases List.mem_cons.mp hmem with heq | hmem
    · cases heq
    · obtain ⟨e, he, heq⟩ := List.mem_map.mp hmem
      rw [Moment.did.inj heq] at he
      exact hnoabort he
  simp only [Aborted, List.mem_append, harrived, hdid, or_false]

/-- What the control channel brings. -/
theorem control_spec {status : Status} (h : Sound log d) (hd : Delivered log)
    {control : Option OrchestratorControl} (hnext : d.next tr (.control control)
      = some (out, status)) :
    Delivered (log ++ turn (.control control) out) ∧ status ≠ .panicked ∧
      ∀ d', status = .running d' → Sound (log ++ turn (.control control) out) d' := by
  have hold : ∀ out, d.armed = true → CaptureOver (log ++ turn (.control control) out) :=
    fun out harmed => (h.armed harmed).append _
  rw [Driver.next.eq_def] at hnext
  simp only [Driver.select] at hnext
  split_ifs at hnext
  · have hidle : ∀ d₁ : Driver, control ≠ some .abort → d₁.fsm = d.fsm → d₁.outbound = d.outbound →
        (d₁.armed = true → CaptureOver (log ++ turn (.control control) [])) →
        Delivered (log ++ turn (.control control) []) ∧ Status.running d₁ ≠ .panicked ∧
          ∀ d', Status.running d₁ = .running d' → Sound (log ++ turn (.control control) []) d' := by
      intro d₁ hne hsame hslot₁ harmed
      refine ⟨hd.quiet rfl rfl trivial (by simp [Quiet]), by simp, fun d' hd' => ?_⟩
      obtain rfl := Status.running.inj hd'
      exact h.quiet tr rfl (by simpa using hne) (by simp [Quiet]) (by simp) (Or.inl hsame)
        (by rw [hsame]; exact h.live) hslot₁ harmed
    match control, hnext, hidle with
    | some .abort, hnext, _ =>
      obtain ⟨rfl, rfl⟩ := Prod.mk.inj (Option.some.inj hnext)
      refine react_keeps h hd (show d.react tr .abort = _ from rfl) rfl rfl trivial rfl rfl hold
        (by simp) (by simp) fun _ => ?_
      rw [Fsm.onInput, Fsm.onAbort, if_neg (by rw [h.live]; decide)]
      rfl
    | some (.captureFailed fault), hnext, _ =>
      obtain ⟨rfl, rfl⟩ := Prod.mk.inj (Option.some.inj hnext)
      exact react_keeps h hd (show d.react tr (.captureFailed fault) = _ from rfl) rfl rfl trivial
        rfl rfl hold (by simp) (by simp) (by simp)
    | some (.captureLost fault), hnext, _ =>
      obtain ⟨rfl, rfl⟩ := Prod.mk.inj (Option.some.inj hnext)
      refine react_keeps h hd (show d.arm.react tr (.captureLost fault) = _ from rfl)
        rfl rfl trivial rfl rfl (fun out _ => ?_) (by simp) (by simp) (by simp)
      exact Or.inr (Or.inl ⟨fault, List.mem_append_right _ List.mem_cons_self⟩)
    | some .captureEnded, hnext, hidle =>
      obtain ⟨rfl, rfl⟩ := Prod.mk.inj (Option.some.inj hnext)
      exact hidle d.arm (by simp) rfl rfl
        fun _ => Or.inl (List.mem_append_right _ List.mem_cons_self)
    | none, hnext, hidle =>
      obtain ⟨rfl, rfl⟩ := Prod.mk.inj (Option.some.inj hnext)
      exact hidle { d with controlOpen := false } (by simp) rfl rfl (hold [])
  · cases hnext

/-- The slot is handed over, or lost to a transport that is gone. -/
theorem permit_spec {status : Status} (h : Sound log d) (hd : Delivered log) {granted : Bool}
    (havail : Available log (.permit granted))
    (hnext : d.next tr (.permit granted) = some (out, status)) :
    Delivered (log ++ turn (.permit granted) out) ∧ status ≠ .panicked ∧
      ∀ d', status = .running d' → Sound (log ++ turn (.permit granted) out) d' := by
  have hitems : ∀ out, clientItems (log ++ turn (.permit granted) out) = clientItems log := by
    intro out
    rw [clientItems_append, clientItems_turn]
    exact List.append_nil _
  obtain ⟨hfsm, -, hprogress⟩ := progress_spec d
  rw [Driver.next.eq_def] at hnext
  cases hslot : d.outbound with
  | none =>
    simp only [Driver.select, hslot, Option.map_none, ite_self] at hnext
    cases hnext
  | some item =>
    cases granted with
    | true =>
      simp only [Driver.select, hslot, Option.map_some, ↓reduceIte] at hnext
      split_ifs at hnext
      · obtain ⟨rfl, rfl⟩ := Prod.mk.inj (Option.some.inj hnext)
        have hpipe := h.pipeline (havail rfl)
        rw [hslot] at hpipe
        have hhanded : handed (log ++ turn (.permit true) [.hand item]) = clientItems log := by
          rw [hpipe, handed_append]
          rfl
        have hunaborted : ¬ Aborted (log ++ [.arrived (.permit true)]) := by
          rw [show [.arrived (.permit true)] = turn (.permit true) [] from rfl,
            aborted_turn (by simp) (by simp)]
          exact h.unaborted
        refine ⟨⟨?_, ?_, ?_⟩, by simp, fun d' hd' => ?_⟩
        · rw [hhanded, hitems]
        · rw [hitems, clientAudio_append, clientAudio_turn]
          show ∃ fin, clientItems log = (clientAudio log ++ []).map .audio ++ fin ∧ _
          rw [List.append_nil]
          exact hd.ordered
        · have hfirst := History.lawful_concat.mpr
            ⟨hd.lawful, show Obeys log (.arrived (.permit true)) from trivial⟩
          have hboth := History.lawful_concat.mpr
            ⟨hfirst, show Obeys _ (.did (.hand item)) from hunaborted⟩
          rwa [List.append_assoc] at hboth
        · obtain rfl := Status.running.inj hd'
          refine ⟨?_, ?_, ?_, ?_, ?_⟩
          · rw [hitems]
            show ∃ inputs actions, Good inputs actions d.progress.fsm ∧ _
            rw [hfsm]
            exact h.good
          · show d.progress.fsm.session.isTerminal = false
            rw [hfsm]
            exact h.live
          · rw [aborted_turn (by simp) (by simp)]
            exact h.unaborted
          · intro _
            rw [hhanded, hitems]
            exact (List.append_nil _).symm
          · exact fun harmed => (h.armed (hprogress harmed)).append _
      · cases hnext
    | false =>
      simp only [Driver.select, hslot, Option.map_some, Bool.false_eq_true, ↓reduceIte] at hnext
      split_ifs at hnext
      · obtain ⟨rfl, rfl⟩ := Prod.mk.inj (Option.some.inj hnext)
        refine ⟨hd.quiet rfl rfl trivial (by simp [Quiet]), by simp, fun d' hd' => ?_⟩
        obtain rfl := Status.running.inj hd'
        refine ⟨?_, h.live, ?_, ?_, fun harmed => (h.armed harmed).append _⟩
        · rw [hitems]
          exact h.good
        · rw [aborted_turn (by simp) (by simp)]
          exact h.unaborted
        · exact fun hopen => absurd (List.mem_append_right _ List.mem_cons_self) hopen
      · cases hnext

/-- The client's input is read through the gate, into the empty slot. -/
theorem client_spec {status : Status} (h : Sound log d) (hd : Delivered log)
    {input : Option OrchestratorInput} (hnext : d.next tr (.client input) = some (out, status)) :
    Delivered (log ++ turn (.client input) out) ∧ status ≠ .panicked ∧
      ∀ d', status = .running d' → Sound (log ++ turn (.client input) out) d' := by
  rw [Driver.next.eq_def] at hnext
  simp only [Driver.select] at hnext
  split_ifs at hnext with hopen
  · obtain ⟨-, -, hslot, hgate⟩ := hopen
    rw [Option.isNone_iff_eq_none] at hslot
    have hactive : d.fsm.session = .active := (of_decide_eq_true hgate).1
    have hnot := h.not_finished hactive
    obtain ⟨inputs, actions, hgood, hsent⟩ := h.good
    have hpipe : ∀ more, .arrived (.permit false) ∉ log ++ more → clientItems log = handed log := by
      intro more hmem
      rw [h.pipeline fun hm => hmem (List.mem_append_left _ hm), hslot]
      exact List.append_nil _
    match input, hnext with
    | some (.audio chunk), hnext =>
      have hreact := react_audio tr chunk hgate hslot
      simp only [Option.map_some, hreact, List.append_nil] at hnext
      obtain ⟨rfl, rfl⟩ := Prod.mk.inj (Option.some.inj hnext)
      refine ⟨hd.read hnot _, by simp, fun d' hd' => ?_⟩
      obtain rfl := Status.running.inj hd'
      refine ⟨⟨inputs, actions, hgood, fun hmem => ?_⟩, h.live, ?_, ?_, fun harmed =>
        (h.armed harmed).append _⟩
      · rw [clientItems_append, clientItems_turn] at hmem
        rcases List.mem_append.mp hmem with hm | hm
        · exact hsent hm
        · simp [clientItems] at hm
      · rw [aborted_turn (by simp) (by simp)]
        exact h.unaborted
      · intro hopen
        rw [clientItems_append, clientItems_turn, handed_append, handed_turn (by simp [Quiet]),
          hpipe _ hopen, List.append_nil]
        rfl
    | some .endOfAudio, hnext =>
      have hreact := react_endOfAudio tr (d := d.arm) hactive hslot
      simp only [Option.map_some, hreact, List.append_nil] at hnext
      obtain ⟨rfl, rfl⟩ := Prod.mk.inj (Option.some.inj hnext)
      refine ⟨hd.read hnot _, by simp, fun d' hd' => ?_⟩
      obtain rfl := Status.running.inj hd'
      have hgood' := onInput_good tr hgood .endOfAudio
      rw [Fsm.onInput, Fsm.onEndOfAudio, if_pos hactive] at hgood'
      refine ⟨⟨_, _, hgood', fun _ => by simp⟩, rfl, ?_, ?_, fun _ => ?_⟩
      · rw [aborted_turn (by simp) (by simp)]
        exact h.unaborted
      · intro hopen
        rw [clientItems_append, clientItems_turn, handed_append, handed_turn (by simp [Quiet]),
          hpipe _ hopen, List.append_nil]
        rfl
      · exact Or.inr (Or.inr (List.mem_append_right _ List.mem_cons_self))
    | none, hnext =>
      obtain ⟨rfl, rfl⟩ := Prod.mk.inj (Option.some.inj hnext)
      refine ⟨hd.quiet rfl rfl trivial (by simp [Quiet]), by simp, fun d' hd' => ?_⟩
      obtain rfl := Status.running.inj hd'
      exact h.quiet tr rfl (by simp) (by simp [Quiet]) (by simp)
        (Or.inl rfl) h.live rfl fun harmed => (h.armed harmed).append _
  · cases hnext

/-- **One turn** of either loop. -/
theorem next_spec {status : Status} (h : Sound log d) (hd : Delivered log)
    (havail : Available log arrival) (hnext : d.next tr arrival = some (out, status)) :
    Delivered (log ++ turn arrival out) ∧ status ≠ .panicked ∧
      ∀ d', status = .running d' → Sound (log ++ turn arrival out) d' := by
  have hold : ∀ out, d.armed = true → CaptureOver (log ++ turn arrival out) :=
    fun out harmed => (h.armed harmed).append _
  obtain ⟨hfsm, hslot, hprogress⟩ := progress_spec d
  cases arrival with
  | opened ok =>
    rw [Driver.next] at hnext
    split_ifs at hnext
    all_goals
      obtain ⟨rfl, rfl⟩ := Prod.mk.inj (Option.some.inj hnext)
      refine ⟨hd.quiet rfl rfl trivial (by simp [Quiet]), by simp, fun d' hd' => ?_⟩
      cases hd'
    exact h.quiet tr rfl (by simp) (by simp [Quiet]) (by simp) (Or.inl rfl) h.live rfl (hold [])
  | control control => exact control_spec h hd hnext
  | expired =>
    rw [Driver.next.eq_def] at hnext
    simp only [Driver.select] at hnext
    split_ifs at hnext with harmed
    · obtain ⟨rfl, rfl⟩ := Prod.mk.inj (Option.some.inj hnext)
      exact react_keeps h hd (show d.react tr .stalled = _ from rfl) rfl rfl (h.armed harmed) rfl
        rfl hold (by simp) (by simp) (by simp)
    · cases hnext
  | incoming event =>
    rw [Driver.next.eq_def] at hnext
    simp only [Driver.select] at hnext
    split_ifs at hnext
    · obtain ⟨rfl, rfl⟩ := Prod.mk.inj (Option.some.inj hnext)
      refine react_keeps h hd (show d.progress.react tr (Driver.incomingInput event) = _ from rfl)
        rfl rfl trivial hfsm hslot
        (fun out harmed => hold out (hprogress harmed)) ?_ ?_ (by simp)
      · intro chunk
        unfold Driver.incomingInput
        split <;> simp
      · unfold Driver.incomingInput
        split <;> simp
    · cases hnext
  | activity =>
    rw [Driver.next.eq_def] at hnext
    simp only [Driver.select] at hnext
    split_ifs at hnext
    · obtain ⟨rfl, rfl⟩ := Prod.mk.inj (Option.some.inj hnext)
      refine ⟨hd.quiet rfl rfl trivial (by simp [Quiet]), by simp, fun d' hd' => ?_⟩
      obtain rfl := Status.running.inj hd'
      exact h.quiet tr rfl (by simp) (by simp [Quiet]) (by simp) (Or.inl hfsm)
        (by rw [hfsm]; exact h.live) hslot fun harmed => hold [] (hprogress harmed)
    · cases hnext
  | permit granted => exact permit_spec h hd havail hnext
  | client input => exact client_spec h hd hnext

/-! ## The session -/

/-- What holds in every state of every run. -/
structure Delivers (r : Run) : Prop where
  /-- The chunks handed to the transport are the first of those the client was read. -/
  in_order : handedAudio r.log <+: clientAudio r.log
  /-- The end goes behind all of them. -/
  finish : .finish ∈ handed r.log → handed r.log = (clientAudio r.log).map .audio ++ [.finish]
  /-- Nothing is handed over after an abort, and the deadline runs out only after capture ended. -/
  lawful : History.Lawful Obeys r.log
  asserts : r.status ≠ .panicked
  armed : ∀ d, r.status = .running d → d.armed = true → CaptureOver r.log
  /-- Until the transport is gone, all that was read was handed over or waits in the slot. -/
  pipeline : ∀ d, r.status = .running d → .arrived (.permit false) ∉ r.log →
    clientItems r.log = handed r.log ++ d.outbound.toList

theorem handedAudio_eq (log : List Moment) : handedAudio log =
    (handed log).filterMap fun | .audio chunk => some chunk | .finish => none := by
  rw [handedAudio, handed, List.filterMap_filterMap]
  congr 1
  funext m
  match m with
  | .arrived _ => rfl
  | .did (.hand (.audio _)) => rfl
  | .did (.hand .finish) => rfl
  | .did .abort => rfl
  | .did (.emit _) => rfl

theorem clientAudio_eq (log : List Moment) : clientAudio log =
    (clientItems log).filterMap fun | .audio chunk => some chunk | .finish => none := by
  rw [clientAudio, clientItems, List.filterMap_filterMap]
  congr 1
  funext m
  match m with
  | .arrived (.client (some (.audio _))) => rfl
  | .arrived (.client (some .endOfAudio)) => rfl
  | .arrived (.client none) => rfl
  | .arrived (.control _) => rfl
  | .arrived .expired => rfl
  | .arrived (.opened _) => rfl
  | .arrived (.incoming _) => rfl
  | .arrived .activity => rfl
  | .arrived (.permit _) => rfl
  | .did _ => rfl

/-- Everything read has been handed over once its end has. -/
theorem Delivered.of_finish (h : Delivered log) (hfinish : .finish ∈ handed log) :
    handed log = (clientAudio log).map .audio ++ [.finish] := by
  obtain ⟨rest, hrest⟩ := h.behind
  obtain ⟨fin, hitems, hfin⟩ := h.ordered
  have hnotaudio : Outbound.finish ∉ (clientAudio log).map Outbound.audio := by simp
  rw [hitems] at hrest
  rcases hfin with rfl | rfl
  · refine absurd ?_ hnotaudio
    rw [← List.append_nil ((clientAudio log).map _), ← hrest]
    exact List.mem_append_left _ hfinish
  · -- what was read ends with the end, so nothing follows it
    rcases List.append_eq_append_iff.mp hrest with ⟨more, hmore, -⟩ | ⟨more, hmore, hlast⟩
    · refine absurd ?_ hnotaudio
      rw [hmore]
      exact List.mem_append_left _ hfinish
    · cases more with
      | nil =>
        refine absurd ?_ hnotaudio
        rw [List.append_nil] at hmore
        rw [← hmore]
        exact hfinish
      | cons item more =>
        obtain ⟨rfl, htail⟩ := List.cons.inj hlast
        obtain ⟨rfl, -⟩ := List.append_eq_nil_iff.mp htail.symm
        exact hmore

/-- **Audio is delivered in order and exactly once**, over every interleaving of the client, the
control channel, the transport and the backend. -/
theorem run_session_delivers (tr : String → String) {r : Run}
    (h : StepSystem.Reachable (Run.Step tr) Run.init r) : Delivers r := by
  have hinv : Delivered r.log ∧ r.status ≠ .panicked ∧
      ∀ d, r.status = .running d → Sound r.log d := by
    refine StepSystem.reachable_induction
      (I := fun r => Delivered r.log ∧ r.status ≠ .panicked ∧ ∀ d,
        r.status = .running d → Sound r.log d)
      h ⟨?_, by simp [Run.init], fun d hd => ?_⟩ ?_
    · exact ⟨List.prefix_rfl, ⟨[], rfl, Or.inl rfl⟩, History.lawful_nil⟩
    · obtain rfl := Status.running.inj hd
      exact ⟨⟨[], [], Good.init, by simp [Run.init, clientItems]⟩, rfl, by simp [Aborted, Run.init],
        fun _ => rfl, by simp⟩
    · rintro s s' ⟨hd, -, hs⟩ ⟨d, arrival, out, hstatus, havail, hnext, hlog⟩
      have hspec := next_spec (hs d hstatus) hd havail hnext
      rwa [← hlog] at hspec
  obtain ⟨hd, hpanic, hs⟩ := hinv
  refine ⟨?_, hd.of_finish, hd.lawful, hpanic, fun d hrun => (hs d hrun).armed,
    fun d hrun => (hs d hrun).pipeline⟩
  rw [handedAudio_eq, clientAudio_eq]
  exact hd.behind.filterMap _

end

theorem Run.Step.of_next {tr : String → String} {log : List Moment} {d : Driver} {arrival : Arrival}
    {out : List Effect} {status : Status} (havail : Available log arrival)
    (hnext : d.next tr arrival = some (out, status)) :
    Run.Step tr ⟨log, .running d⟩ ⟨log ++ turn arrival out, status⟩ :=
  ⟨d, arrival, out, rfl, havail, hnext, rfl⟩

/-- The model is ready, and one chunk is spoken. -/
def readyArrival : Arrival := .incoming (some (.ok (.progress ⟨none, PHASE_READY, none, none⟩)))

def spokenChunk : PcmChunk := ⟨[1, 2], {}⟩

def spokenLog : List Moment :=
  turn (.opened true) [] ++ turn readyArrival [.emit .ready] ++
    turn (.client (some (.audio spokenChunk))) []

theorem spoken_delivers : ∃ r, StepSystem.Reachable (Run.Step id) Run.init r ∧
    handedAudio r.log = [spokenChunk] ∧ Delivers r := by
  let ready : Driver := { opened := true, fsm := { residency := .resident } }
  have hopened := Run.Step.of_next (show Available [] (.opened true) by simp [Available])
    (show Driver.next id {} (.opened true) = some ([], .running { opened := true }) from rfl)
  have hready := Run.Step.of_next
    (show Available (turn (.opened true) []) readyArrival by simp [Available, readyArrival])
    (show Driver.next id { opened := true } _ = some ([.emit .ready], .running ready) from rfl)
  have hread := Run.Step.of_next
    (show Available (turn (.opened true) [] ++ turn readyArrival [.emit .ready])
      (.client (some (.audio spokenChunk))) by simp [Available])
    (show Driver.next id ready _ =
      some ([], .running { ready with outbound := some (.audio spokenChunk) }) from rfl)
  have hhanded := Run.Step.of_next
    (show Available spokenLog (.permit true) by simp [Available, spokenLog, turn, readyArrival])
    (show Driver.next id { ready with outbound := some (.audio spokenChunk) } _ =
      some ([.hand (.audio spokenChunk)], .running ready) from rfl)
  have hreach := (((Relation.ReflTransGen.single hopened).tail hready).tail hread).tail hhanded
  exact ⟨_, hreach, rfl, run_session_delivers id hreach⟩

end Orchestrator

end Myna
