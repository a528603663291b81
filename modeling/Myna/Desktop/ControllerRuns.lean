import Myna.Desktop.Controller
import Myna.Lib.History

/-!
# Myna — what a run of the controller keeps to

`Obeys` says what each entry of the log owes to the entries before it: an advance is legal, a commit
goes to a target that is held and hands over `Final` texts alone. `Running` is the invariant of the
select loop and `run_one_utterance_safe` the account of a whole run.
-/

namespace Myna

namespace Desktop

open Orchestrator (OrchestratorEvent SessionOutcome)

/-- An entry that tells nothing of the target and brings no text. -/
def Entry.isQuiet : Entry → Bool
  | .focus _ | .routed _ | .committed .. | .discarded _ | .acquired | .released => false
  | _ => true

def Entry.isReleased : Entry → Bool
  | .released => true
  | _ => false

def DictationState.isActive : DictationState → Bool
  | .recording | .transcribing | .finalizing => true
  | _ => false

namespace Controller

/-! ## What a log tells -/

/-- The controller has been told that the target is lost. -/
def LossSeen (log : List Entry) : Prop :=
  (∃ event, .focus event ∈ log) ∨
    ∃ before pending text, .committed before pending text (.error .focusLost) ∈ log

/-- The `Final` texts of a log: those before the last boundary, and those since. -/
structure Tally where
  said : String := ""
  burst : List String := []

def Tally.count (t : Tally) : Entry → Tally
  | .routed (.final text) => { t with burst := t.burst ++ [text] }
  | .routed _ | .committed .. | .discarded _ =>
    { said := t.said ++ String.join t.burst, burst := [] }
  | _ => t

def tally (log : List Entry) : Tally := log.foldl Tally.count {}

/-- Texts as `push` joins them. -/
def joinedAll (texts : List String) : String := texts.foldl CommitBuffer.joined ""

/-- What an entry owes to its past. -/
def Obeys (past : List Entry) : Entry → Prop
  | .advanced state next => state.canTransition next = true
  | .acquired => .acquired ∉ past ∧ .released ∉ past
  | .focus _ => .released ∉ past
  | .committed _ pending text answer =>
    (.acquired ∈ past ∧ .released ∉ past ∧ ¬ LossSeen past ∧ (answer = .ok () → .lost ∉ past)) ∧
      pending = joinedAll (tally past).burst ∧ (text = pending ∨ text = " " ++ pending)
  | .discarded pending => LossSeen past ∧ pending = joinedAll (tally past).burst
  | .preedit _ => .acquired ∈ past ∧ .released ∉ past ∧ ¬ LossSeen past
  | .released => .acquired ∈ past ∧ .released ∉ past
  | _ => True

variable {log log' : List Entry} {e : Entry}

theorem lossSeen_append :
    LossSeen (log ++ log') ↔ LossSeen log ∨ LossSeen log' := by
  simp only [LossSeen, List.mem_append, exists_or]
  exact or_or_or_comm

theorem lossSeen_focus (event : FocusEvent) : LossSeen (log ++ [.focus event]) :=
  lossSeen_append.mpr (Or.inr (Or.inl ⟨event, List.mem_singleton.mpr rfl⟩))

theorem lossSeen_committed {before : Option Char} {pending text : String}
    {answer : Except InjectError Unit} : LossSeen (log ++ [.committed before pending text answer]) ↔
      LossSeen log ∨ answer = .error .focusLost := by
  rw [lossSeen_append]
  simp [LossSeen, eq_comm]

theorem tally_append : tally (log ++ log') = log'.foldl Tally.count (tally log) :=
  List.foldl_append

@[simp] theorem tally_concat : tally (log ++ [e]) = (tally log).count e := by
  rw [tally_append]
  rfl

@[simp] theorem joinedAll_concat (texts : List String) (text : String) :
    joinedAll (texts ++ [text]) = CommitBuffer.joined (joinedAll texts) text := by
  simp [joinedAll]

theorem not_lossSeen_quiet (h : e.isQuiet = true) : ¬ LossSeen [e] := by
  rintro (⟨event, hmem⟩ | ⟨before, pending, text, hmem⟩)
  · obtain rfl := List.mem_singleton.mp hmem
    cases h
  · obtain rfl := List.mem_singleton.mp hmem
    cases h

theorem count_quiet (h : e.isQuiet = true) (t : Tally) : t.count e = t := by
  cases e <;> first | rfl | cases h

theorem tell_tell (c : Controller) (entries more : List Entry) :
    (c.tell entries).tell more = c.tell (entries ++ more) := by
  simp [tell]

/-! ## The invariant of the loop -/

/-- What a log tells of the target that is held and of the text that waits. -/
structure Held (log : List Entry) (ending : Ending) (buffer : CommitBuffer) : Prop where
  lawful : History.Lawful Obeys log
  acquired : .acquired ∈ log
  released : .released ∉ log
  seen : ending = .none ↔ ¬ LossSeen log
  pending : buffer.pending = joinedAll (tally log).burst

structure Running (c : Controller) (l : Loop) : Prop extends Held c.log l.ending l.buffer where
  active : c.state.isActive = true

section Running

variable {c : Controller} {l : Loop} {ending : Ending} {buffer : CommitBuffer}

theorem Held.concat (h : Held log ending buffer) {ending' : Ending} {buffer' : CommitBuffer}
    (hobeys : Obeys log e) (hheld : e ≠ .released)
    (hseen : ending' = .none ↔ ¬ LossSeen (log ++ [e]))
    (hpending : buffer'.pending = joinedAll ((tally log).count e).burst) :
    Held (log ++ [e]) ending' buffer' where
  lawful := History.lawful_concat.mpr ⟨h.lawful, hobeys⟩
  acquired := List.mem_append_left _ h.acquired
  released := by
    intro hmem
    rcases List.mem_append.mp hmem with hmem | hmem
    · exact h.released hmem
    · exact hheld (List.mem_singleton.mp hmem).symm
  seen := hseen
  pending := by
    rw [tally_concat]
    exact hpending

/-- Entries that say nothing of the target or the text. -/
theorem Held.tell (h : Held log ending buffer) {entries : List Entry}
    (hquiet : ∀ e ∈ entries, e.isQuiet = true)
    (hfree : ∀ e ∈ entries, ∀ past, .acquired ∈ past → .released ∉ past →
      (LossSeen past ↔ LossSeen log) → Obeys past e) :
    Held (log ++ entries) ending buffer := by
  induction entries generalizing log with
  | nil => simpa using h
  | cons e entries ih =>
    have hq := hquiet e List.mem_cons_self
    have hsame : LossSeen (log ++ [e]) ↔ LossSeen log := by
      rw [lossSeen_append, or_iff_left (not_lossSeen_quiet hq)]
    have hnext : Held (log ++ [e]) ending buffer := by
      refine h.concat (hfree e List.mem_cons_self log h.acquired h.released Iff.rfl) ?_ ?_ ?_
      · rintro rfl
        cases hq
      · rw [hsame]
        exact h.seen
      · rw [count_quiet hq]
        exact h.pending
    have hrest := ih hnext (fun e he => hquiet e (List.mem_cons_of_mem _ he))
      fun e he past hacq hrel hloss =>
        hfree e (List.mem_cons_of_mem _ he) past hacq hrel (hloss.trans hsame)
    rwa [List.append_assoc, List.singleton_append] at hrest

/-- The other locals of the loop are of no account. -/
theorem Running.congr (h : Running c l) {l' : Loop} (hending : l'.ending = l.ending)
    (hbuffer : l'.buffer = l.buffer) : Running c l' := by
  obtain ⟨hheld, hactive⟩ := h
  rw [← hending, ← hbuffer] at hheld
  exact ⟨hheld, hactive⟩

/-- Entries that any past allows. -/
theorem Running.tell (h : Running c l) {entries : List Entry}
    (hquiet : ∀ e ∈ entries, e.isQuiet = true) (hfree : ∀ e ∈ entries, ∀ past, Obeys past e) :
    Running (c.tell entries) l :=
  ⟨h.toHeld.tell hquiet fun e he past _ _ _ => hfree e he past, h.active⟩

theorem Running.advance (h : Running c l) {next : DictationState}
    (hlegal : c.state.canTransition next = true) (hnext : next.isActive = true) :
    Running (c.advance next) l where
  toHeld := h.toHeld.tell (by simp [Entry.isQuiet]) (by simpa [Obeys] using fun _ _ _ _ => hlegal)
  active := hnext

theorem canTransition_finalizing {state : DictationState} (h : state.isListening = true) :
    state.canTransition .finalizing = true := by
  cases state <;> first | rfl | cases h

theorem Running.enterFinalizing (h : Running c l) : Running c.enterFinalizing l := by
  unfold Controller.enterFinalizing
  split_ifs with hlistening
  · exact (h.advance (canTransition_finalizing hlistening) rfl).tell (by simp [Entry.isQuiet])
      (by simp [Obeys])
  · exact h

/-- What the focus stream tells is a loss. -/
theorem Running.focus (h : Running c l) {event : FocusEvent} {reason : Ending}
    (hreason : reason ≠ .none) (triggerOpen : Bool) :
    Running (c.tell [.focus event]) { l with ending := l.ending.or reason, triggerOpen } := by
  refine ⟨h.toHeld.concat h.released nofun ?_ h.pending, h.active⟩
  have hending : l.ending.or reason ≠ .none := fun heq => hreason (Ending.or_eq_none.mp heq).2
  exact iff_of_false hending (not_not.mpr (lossSeen_focus event))

/-- A flush: what was written, or discarded, is what the buffer held. -/
theorem Running.flush (h : Running c l) {reply : Reply} (hhonest : Honest c.log reply) :
    Running (c.flush l reply).1 (c.flush l reply).2 := by
  unfold Controller.flush CommitBuffer.flush
  by_cases hempty : l.buffer.pending = ""
  · simp only [if_pos hempty, Ending.or_none]
    exact h.tell (by simp) (by simp)
  simp only [if_neg hempty]
  cases hallowed : l.ending.writesAllowed with
  | false =>
    have hseen : LossSeen c.log := by
      by_contra hnot
      have hnone := h.seen.mpr hnot
      rw [hnone] at hallowed
      cases hallowed
    refine ⟨h.toHeld.concat ⟨hseen, h.pending⟩ nofun ?_ rfl, h.active⟩
    have hending : l.ending ≠ .none := fun hnone => h.seen.mp hnone hseen
    simpa [Ending.or_none, hending] using lossSeen_append.mpr (Or.inl hseen)
  | true =>
    have hnone : l.ending = .none := by simpa [Ending.writesAllowed] using hallowed
    have hunseen := h.seen.mp hnone
    have hwrite : ∀ text answer, text = l.buffer.flushed reply.charBeforeCursor →
        answer = reply.answer → Obeys c.log (.committed reply.charBeforeCursor l.buffer.pending
          text answer) := by
      rintro text answer rfl rfl
      refine ⟨⟨h.acquired, h.released, hunseen, fun hok hlost => hhonest hlost hok⟩, h.pending, ?_⟩
      unfold CommitBuffer.flushed
      split_ifs
      · exact Or.inr rfl
      · exact Or.inl rfl
    -- only a refusal for lost focus is a loss that the controller learns of
    cases hanswer : reply.answer with
    | ok u =>
      refine ⟨h.toHeld.concat (hwrite _ _ rfl hanswer.symm) nofun ?_ rfl, h.active⟩
      rw [lossSeen_committed]
      simpa [hnone] using hunseen
    | error err =>
      cases err with
      | focusLost =>
        refine ⟨h.toHeld.concat (hwrite _ _ rfl hanswer.symm) nofun ?_ rfl, h.active⟩
        rw [lossSeen_committed]
        simp [Ending.or_eq_none]
      | _ =>
        refine ⟨h.toHeld.concat (hwrite _ _ rfl hanswer.symm) nofun ?_ rfl, h.active⟩
        rw [lossSeen_committed]
        simpa [hnone] using hunseen

/-- What an event does after the flush that precedes it. -/
theorem Running.record (h : Running c l) (event : OrchestratorEvent)
    (hflushed : isFinal event = false → l.buffer.pending = "") :
    Running ((c.tell [.routed event]).record l event).1
      ((c.tell [.routed event]).record l event).2 := by
  have hseen : l.ending = .none ↔ ¬ LossSeen (c.log ++ [.routed event]) := by
    rw [lossSeen_append, or_iff_left (by simp [LossSeen])]
    exact h.seen
  cases event with
  | final text =>
    refine ⟨h.toHeld.concat trivial nofun hseen ?_, h.active⟩
    show CommitBuffer.joined l.buffer.pending text = joinedAll ((tally c.log).burst ++ [text])
    rw [joinedAll_concat, h.pending]
  | transcribing =>
    have hrouted : Running (c.tell [.routed .transcribing]) l :=
      ⟨h.toHeld.concat trivial nofun hseen (hflushed rfl), h.active⟩
    show Running (if c.state
      = .recording then (c.tell [.routed .transcribing]).advance .transcribing
      else c.tell [.routed .transcribing]) l
    split_ifs with hrecording
    · refine hrouted.advance ?_ rfl
      show c.state.canTransition .transcribing = true
      rw [hrecording]
      rfl
    · exact hrouted
  | captureLost lost =>
    have hrouted : Running (c.tell [.routed (.captureLost lost)]) l :=
      ⟨h.toHeld.concat trivial nofun hseen (hflushed rfl), h.active⟩
    exact hrouted.enterFinalizing.congr rfl rfl
  | warning code notice =>
    have hrouted : Running (c.tell [.routed (.warning code notice)]) l :=
      ⟨h.toHeld.concat trivial nofun hseen (hflushed rfl), h.active⟩
    unfold Controller.record
    dsimp only
    split_ifs
    · exact hrouted.congr rfl rfl
    · exact hrouted
  | audioDropped =>
    have hrouted : Running (c.tell [.routed .audioDropped]) l :=
      ⟨h.toHeld.concat trivial nofun hseen (hflushed rfl), h.active⟩
    exact (hrouted.tell (by simp [Entry.isQuiet]) (by simp [Obeys])).congr rfl rfl
  | _ => exact ⟨h.toHeld.concat trivial nofun hseen (hflushed rfl), h.active⟩

theorem Running.showEvent (h : Running c l) (tr : String → String) (event : OrchestratorEvent)
    (quality : InputQuality) : Running (c.showEvent tr l event quality) l := by
  unfold Controller.showEvent
  split
  · exact h.tell (by simp [Entry.isQuiet]) (by simp [Obeys])
  · exact h

theorem Running.showPreedit (h : Running c l) (event : OrchestratorEvent) (preedit : Bool) :
    Running (c.showPreedit l event preedit) l := by
  unfold Controller.showPreedit
  split
  · split_ifs with hshow
    · have hheld : l.ending = .none := by
        rw [Bool.and_eq_true] at hshow
        simpa [Ending.writesAllowed] using hshow.2
      refine ⟨h.toHeld.tell (by simp [Entry.isQuiet]) ?_, h.active⟩
      intro e he past hacq hrel hloss
      obtain rfl := List.mem_singleton.mp he
      exact ⟨hacq, hrel, fun hseen => h.seen.mp hheld (hloss.mp hseen)⟩
    · exact h
  · exact h

theorem Running.routeEvent (h : Running c l) (tr : String → String) (event : OrchestratorEvent)
    (preedit : Bool) (quality : InputQuality) {reply : Reply} (hhonest : Honest c.log reply) :
    Running (c.routeEvent tr l event preedit quality reply).1
      (c.routeEvent tr l event preedit quality reply).2 := by
  unfold Controller.routeEvent
  cases hfinal : isFinal event with
  | true =>
    have hrecord := h.record event (fun hnot => by rw [hfinal] at hnot; cases hnot)
    exact (hrecord.showEvent tr event quality).showPreedit event preedit
  | false =>
    have hrecord := (h.flush hhonest).record event
      (fun _ => CommitBuffer.pending_flush l.buffer l.ending.writesAllowed reply)
    exact (hrecord.showEvent tr event quality).showPreedit event preedit

/-- Every branch of the select. -/
theorem Running.select (h : Running c l) (tr : String → String)
    (capabilities : TextInputCapabilities) {branch : Branch} (henabled : c.Enabled l branch) :
    Running (c.select tr capabilities l branch).1 (c.select tr capabilities l branch).2 := by
  have hstop : ∀ {c : Controller} {l : Loop}, Running c l → Running (c.tell [.stopped]) l :=
    fun h => h.tell (by simp [Entry.isQuiet]) (by simp [Obeys])
  have hresync : ∀ {c : Controller} {l : Loop}, Running c l → Running (c.tell [.resynced]) l :=
    fun h => h.tell (by simp [Entry.isQuiet]) (by simp [Obeys])
  cases branch with
  | focus event =>
    cases event with
    | none => exact h.congr rfl rfl
    | some event =>
      cases event with
      | focusOut =>
        have hlost := hstop (@Running.focus _ _ h .focusOut .focusLost nofun false)
        rw [tell_tell] at hlost
        exact hresync hlost.enterFinalizing
      | targetGone =>
        have hlost := @Running.focus _ _ h .targetGone .targetGone nofun false
        have hover := hresync (hstop hlost)
        rw [tell_tell, tell_tell] at hover
        exact hover
  | edge edge =>
    have hactivated : Running (c.tell [.activated]) l :=
      h.tell (by simp [Entry.isQuiet]) (by simp [Obeys])
    cases edge with
    | none => exact (hstop h).enterFinalizing.congr rfl rfl
    | some edge =>
      cases edge with
      | press => exact hactivated
      | release =>
        have hreleased := hstop hactivated
        rw [tell_tell] at hreleased
        exact hreleased.enterFinalizing.congr rfl rfl
  | changed stats silence =>
    cases stats with
    | none => exact h.congr rfl rfl
    | some stats =>
      unfold Controller.select
      dsimp only
      split_ifs
      · exact (hresync (hstop h).enterFinalizing).congr rfl rfl
      · exact h
  | result result => exact h.congr rfl rfl
  | event event preedit stats reply =>
    cases event with
    | none => exact h.congr rfl rfl
    | some event => exact h.routeEvent tr event _ _ henabled.2

end Running

/-! ## After the loop -/

/-- The target has been given up. -/
structure Given (c : Controller) : Prop where
  lawful : History.Lawful Obeys c.log
  acquired : .acquired ∈ c.log
  released : .released ∈ c.log

def isEnd : DictationState → Bool
  | .completed | .cancelled | .error => true
  | _ => false

section Given

variable {c : Controller} {l : Loop}

theorem Given.tell (h : Given c) {entries : List Entry}
    (hfree : ∀ e ∈ entries, ∀ past, Obeys past e) : Given (c.tell entries) :=
  ⟨h.lawful.append_free hfree, List.mem_append_left _ h.acquired, List.mem_append_left _ h.released⟩

theorem Given.advance (h : Given c) {next : DictationState}
    (hlegal : c.state.canTransition next = true) : Given (c.advance next) := by
  have htold := @Given.tell _ h [.advanced c.state next] (by simpa [Obeys] using hlegal)
  exact ⟨htold.lawful, htold.acquired, htold.released⟩

theorem Given.warned (h : Given c) (warned : List String) : Given { c with warned } :=
  ⟨h.lawful, h.acquired, h.released⟩

theorem Given.reportFailure (h : Given c) (headline detail : String) :
    Given (c.reportFailure headline detail) :=
  h.tell (by simp [Obeys])

theorem Given.resync (h : Given c) : Given (c.tell [.resynced]) := h.tell (by simp [Obeys])

theorem Given.ensureFinalizing (h : Given c) : Given c.ensureFinalizing := by
  unfold Controller.ensureFinalizing
  split_ifs with hlistening
  · exact h.advance (canTransition_finalizing hlistening)
  · exact h

theorem state_ensureFinalizing (hactive : c.state.isActive = true) :
    c.ensureFinalizing.state = .finalizing := by
  unfold Controller.ensureFinalizing
  cases hstate : c.state <;> simp_all [DictationState.isActive, DictationState.isListening, advance]

/-- An end is entered from an active state, `Completed` by way of `Finalizing`. -/
theorem Given.finalizeState (h : Given c) (hactive : c.state.isActive = true)
    {terminal : DictationState} (hend : isEnd terminal = true) :
    Given (c.finalizeState terminal) ∧ isEnd (c.finalizeState terminal).state = true := by
  cases terminal with
  | completed =>
    refine ⟨h.ensureFinalizing.advance ?_, rfl⟩
    rw [state_ensureFinalizing hactive]
    rfl
  | cancelled =>
    refine ⟨h.advance ?_, rfl⟩
    cases hstate : c.state <;> rw [hstate] at hactive <;> first | rfl | cases hactive
  | error =>
    refine ⟨h.advance ?_, rfl⟩
    cases hstate : c.state <;> rw [hstate] at hactive <;> first | rfl | cases hactive
  | _ => cases hend

theorem Given.disposition (h : Given c) (tr : String → String) (hactive : c.state.isActive = true)
    (outcome : Except BackendError SessionOutcome) (quality : InputQuality) :
    Given (c.disposition tr l outcome quality) ∧
      isEnd (c.disposition tr l outcome quality).state = true := by
  cases outcome with
  | error err =>
    unfold Controller.disposition
    dsimp only
    split_ifs
    · have hnotice := @Given.tell _ h [.indicated (.recoverable err.headline)] (by simp [Obeys])
      obtain ⟨hgiven, hend⟩ := @Given.finalizeState _ hnotice hactive .cancelled rfl
      exact ⟨hgiven.resync, hend⟩
    · obtain ⟨hgiven, hend⟩ := @Given.finalizeState _
        (h.reportFailure err.headline err.detail) hactive .error rfl
      exact ⟨hgiven.resync, hend⟩
  | ok outcome =>
    cases outcome with
    | completed transcript =>
      have hfinal : c.ensureFinalizing.state.isActive = true := by
        rw [state_ensureFinalizing hactive]
        rfl
      unfold Controller.disposition
      dsimp only
      exact ((h.ensureFinalizing.warned _).tell (by simp [Obeys])).finalizeState hfinal rfl
    | aborted =>
      obtain ⟨hgiven, hend⟩ := @Given.finalizeState _ h hactive .cancelled rfl
      exact ⟨hgiven.resync, hend⟩
    | failed code failure =>
      obtain ⟨hgiven, hend⟩ := @Given.finalizeState _
        (h.reportFailure failure.headline failure.detail) hactive .error rfl
      exact ⟨hgiven.resync, hend⟩

/-- All that follows the loop. -/
theorem Running.conclude (h : Running c l) (tr : String → String)
    (outcome : Except BackendError SessionOutcome) (stats : AudioStats) {reply : Reply}
    (hhonest : Honest c.log reply) :
    Given (c.conclude tr l outcome stats reply) ∧
      (c.conclude tr l outcome stats reply).state = .idle := by
  have hflushed : Running (if isCompleted outcome then c.flush l reply else (c, l)).1
      (if isCompleted outcome then c.flush l reply else (c, l)).2 := by
    split_ifs
    · exact h.flush hhonest
    · exact h
  unfold Controller.conclude
  generalize (if isCompleted outcome then c.flush l reply else (c, l)) = after at hflushed ⊢
  obtain ⟨c, l⟩ := after
  dsimp only at hflushed ⊢
  have hreleased : Given (c.tell [.released]) :=
    ⟨History.lawful_concat.mpr ⟨hflushed.lawful, hflushed.acquired, hflushed.released⟩,
      List.mem_append_left _ hflushed.acquired,
        List.mem_append_right _ (List.mem_singleton.mpr rfl)⟩
  have hactive : (c.tell [.released]).state.isActive = true := hflushed.active
  -- the levels of a capture that was heard change nothing
  obtain ⟨heard, hheard, hgiven, hstate⟩ : ∃ heard, (if 0 < (l.snapshot stats).captured then
      (c.tell [.released]).tell [.inputLevels ⟨(l.snapshot stats).offset,
        (l.snapshot stats).noiseFloor, (l.snapshot stats).speechLevel, (l.snapshot stats).snrDb⟩]
      else c.tell [.released]) = heard ∧ Given heard ∧ heard.state.isActive = true := by
    refine ⟨_, rfl, ?_⟩
    split_ifs
    · exact ⟨hreleased.tell (by simp [Obeys]), hactive⟩
    · exact ⟨hreleased, hactive⟩
  rw [hheard]
  obtain ⟨final, hfinal, hend, hterminal⟩ : ∃ final, (if l.ending = .targetGone then
      (heard.reportFailure (tr "Text field closed")
        "dictation target closed").finalizeState .cancelled
      else heard.disposition tr l outcome (inputQuality (l.snapshot stats))) = final ∧
      Given final ∧ isEnd final.state = true := by
    refine ⟨_, rfl, ?_⟩
    split_ifs
    · exact (hgiven.reportFailure _ _).finalizeState hstate rfl
    · exact hgiven.disposition tr hstate outcome _
  rw [hfinal]
  have hidle : final.state.canTransition .idle = true := by
    cases hs : final.state <;> rw [hs] at hterminal <;> first | rfl | cases hterminal
  have hdone := @Given.tell _ (hend.advance hidle) [.discardedPending] (by simp [Obeys])
  exact ⟨⟨hdone.lawful, hdone.acquired, hdone.released⟩, rfl⟩

end Given

/-! ## A run -/

/-- What a state of a run keeps to, by where the run is. -/
def Sound (c : Controller) : Prop :=
  match c.stage with
  | .ready => c.state = .idle ∧ c.log = []
  | .acquiring => c.state = .starting ∧ c.log = [.advanced .idle .starting]
  | .running l => Running c l
  | .finished => c.state = .idle ∧ History.Lawful Obeys c.log ∧
    (.acquired ∈ c.log ↔ .released ∈ c.log)

/-- A failure before capture. -/
theorem sound_abort (tr : String → String) {c : Controller} (hstate : c.state = .starting)
    (hlog : c.log = [.advanced .idle .starting]) (err : InjectError) :
    Sound { c.abortBeforeCapture tr err with stage := .finished } := by
  have hentries : (c.abortBeforeCapture tr err).log = [.advanced .idle .starting,
      .lastError (err.headline tr) err.toString, .indicated (.critical (err.headline tr)),
      .advanced .starting .error, .resynced, .advanced .error .idle] := by
    simp [abortBeforeCapture, reportFailure, advance, tell, hlog, hstate]
  refine ⟨rfl, ?_, ?_⟩
  · show History.Lawful Obeys (c.abortBeforeCapture tr err).log
    rw [hentries]
    exact History.lawful_nil.append_free (by
      simp [Obeys, DictationState.canTransition])
  · show .acquired ∈ (c.abortBeforeCapture tr err).log ↔
      .released ∈ (c.abortBeforeCapture tr err).log
    rw [hentries]
    simp

theorem Step.sound {tr : String → String} {capabilities : TextInputCapabilities} {c c' : Controller}
    (h : Sound c) (hstep : Step tr capabilities c c') : Sound c' := by
  cases hstep with
  | press hstage =>
    rw [Sound, hstage] at h
    obtain ⟨hstate, hlog⟩ := h
    have hstarting : (c.advance .starting).log = [.advanced .idle .starting] := by
      simp [advance, tell, hstate, hlog]
    split_ifs
    · exact ⟨rfl, hstarting⟩
    · exact sound_abort tr rfl hstarting .secureField
  | refused err hstage =>
    rw [Sound, hstage] at h
    exact sound_abort tr h.1 h.2 err
  | acquired tapped hstage =>
    rw [Sound, hstage] at h
    obtain ⟨hstate, hlog⟩ := h
    have hentries : (((c.tell [.acquired]).advance .recording).tell [.indicated .recording]).log =
        [.advanced .idle .starting, .acquired, .advanced .starting .recording,
          .indicated .recording] := by
      simp [advance, tell, hlog, hstate]
    refine ⟨⟨?_, ?_, ?_, ?_, ?_⟩, rfl⟩
    all_goals
      dsimp only
      rw [hentries]
    · have hfirst : History.Lawful Obeys ([] ++ [Entry.advanced .idle .starting]) :=
        History.lawful_concat.mpr ⟨History.lawful_nil, rfl⟩
      have hacquired := History.lawful_concat (e := Entry.acquired).mpr ⟨hfirst, by simp [Obeys]⟩
      exact @hacquired.append_free _ _ _ [.advanced .starting .recording, .indicated .recording]
        (by simp [Obeys, DictationState.canTransition])
    · simp
    · simp
    · simp [LossSeen]
    · rfl
  | lose hstage =>
    rw [Sound, hstage] at h
    have hlost := @Running.tell _ _ h [.lost] (by simp [Entry.isQuiet]) (by simp [Obeys])
    have hsame : (c.tell [.lost]).stage = .running _ := hstage
    rw [Sound, hsame]
    exact hlost
  | select branch hstage hopen henabled =>
    rw [Sound, hstage] at h
    obtain ⟨hheld, hactive⟩ := h.select tr capabilities henabled
    exact ⟨hheld, hactive⟩
  | conclude stats reply hstage hevents hdone hhonest =>
    rw [Sound, hstage] at h
    obtain ⟨hgiven, hidle⟩ := h.conclude tr _ stats hhonest
    exact ⟨hidle, hgiven.lawful, iff_of_true hgiven.acquired hgiven.released⟩

theorem Sound.lawful {c : Controller} (h : Sound c) : History.Lawful Obeys c.log := by
  unfold Sound at h
  split at h
  · rw [h.2]
    exact History.lawful_nil
  · rw [h.2]
    exact (History.lawful_concat (l := [])).mpr ⟨History.lawful_nil, rfl⟩
  · exact h.lawful
  · exact h.2.1

theorem isReleased_iff {e : Entry} : e.isReleased = true ↔ e = .released := by
  cases e <;> simp [Entry.isReleased]

theorem countP_isReleased_le_one {log : List Entry} (h : History.Lawful Obeys log) :
    log.countP Entry.isReleased ≤ 1 := by
  refine h.countP_le_one fun past e he hobeys e' hmem hreleased => ?_
  rw [isReleased_iff] at he hreleased
  subst he hreleased
  exact hobeys.2 hmem

/-- No branch of the select is enabled when the loop is over, and one is until then. -/
theorem exists_step {tr : String → String} {capabilities : TextInputCapabilities} {c : Controller}
    (hstage : c.stage ≠ .finished) : ∃ c', Step tr capabilities c c' := by
  cases hs : c.stage with
  | ready => exact ⟨_, .press hs⟩
  | acquiring => exact ⟨_, .acquired false hs⟩
  | finished => exact absurd hs hstage
  | running l =>
    have hhonest : Honest c.log { answer := .error .focusLost } := nofun
    cases hdone : l.done with
    | none => exact ⟨_, .select (.result (.ok .aborted)) hs (Or.inr (by rw [hdone]; rfl))
        (by show l.done.isNone = true; rw [hdone]; rfl)⟩
    | some outcome =>
      cases hevents : l.eventsOpen with
      | true => exact ⟨_, .select (.event none false {} { answer := .error .focusLost }) hs
          (Or.inl hevents) ⟨hevents, hhonest⟩⟩
      | false => exact ⟨_, .conclude {} { answer := .error .focusLost } hs hevents hdone hhonest⟩

/-- With the result of the session in hand and its events at their end, the run ends. -/
theorem step_of_over {tr : String → String} {capabilities : TextInputCapabilities}
    {c c' : Controller} {l : Loop} (hstage : c.stage = .running l) (hevents : l.eventsOpen = false)
    (hdone : l.done.isSome = true) (hstep : Step tr capabilities c c') :
    c'.stage = .finished ∨ c' = c.tell [.lost] := by
  cases hstep with
  | press h => rw [hstage] at h; cases h
  | refused err h => rw [hstage] at h; cases h
  | acquired tapped h => rw [hstage] at h; cases h
  | lose h => exact Or.inr rfl
  | conclude stats reply h _ _ _ => exact Or.inl rfl
  | select branch h hopen _ =>
    rw [hstage] at h
    obtain rfl := Stage.running.inj h
    rcases hopen with hopen | hopen
    · rw [hevents] at hopen
      cases hopen
    · rw [Option.isNone_iff_eq_none.mp hopen] at hdone
      cases hdone

/-- What a run of `run_one_utterance` keeps to. -/
structure Safe (tr : String → String) (capabilities : TextInputCapabilities) (c : Controller) :
    Prop where
  /-- Every advance is legal; a commit goes to a target that is held, and carries `Final` texts. -/
  lawful : History.Lawful Obeys c.log
  /-- A run never stands still, and ends once its session has. -/
  live : c.stage ≠ .finished → ∃ c', Step tr capabilities c c'
  finished : ∀ l, c.stage = .running l → l.eventsOpen = false → l.done.isSome = true →
    ∀ c', Step tr capabilities c c' → c'.stage = .finished ∨ c' = c.tell [.lost]
  ended : c.stage = .finished → c.state = .idle
  /-- A target that was acquired is released once, by the end and not before. -/
  released : c.stage = .finished → .acquired ∈ c.log → c.log.countP Entry.isReleased = 1
  held : c.stage ≠ .finished ∨ .acquired ∉ c.log → c.log.countP Entry.isReleased = 0

/-- **A run of the controller is safe**, whatever the shortcut, the target, the capture and the
session do, and in whichever order. -/
theorem run_one_utterance_safe {tr : String → String} {capabilities : TextInputCapabilities}
    {warned : List String} {c : Controller}
    (h : StepSystem.Reachable (Step tr capabilities) { warned } c) : Safe tr capabilities c := by
  have hsound : Sound c := StepSystem.reachable_induction h ⟨rfl, rfl⟩ fun _ _ hs hstep =>
    hstep.sound hs
  have hnone : .released ∉ c.log → c.log.countP Entry.isReleased = 0 := by
    intro hnot
    refine List.countP_eq_zero.mpr fun e hmem he => hnot ?_
    rwa [← isReleased_iff.mp he]
  refine ⟨hsound.lawful, exists_step, fun l hs he hd c' hstep =>
    step_of_over hs he hd hstep, ?_, ?_, ?_⟩
  · intro hfinished
    rw [Sound, hfinished] at hsound
    exact hsound.1
  · intro hfinished hacquired
    have hle := countP_isReleased_le_one hsound.lawful
    rw [Sound, hfinished] at hsound
    have hpos : 0 < c.log.countP Entry.isReleased :=
      List.countP_pos_iff.mpr ⟨_, hsound.2.2.mp hacquired, rfl⟩
    omega
  · intro hheld
    apply hnone
    unfold Sound at hsound
    split at hsound
    · rw [hsound.2]
      simp
    · rw [hsound.2]
      simp
    · exact hsound.released
    · next hfinished =>
      have hacquired := hheld.resolve_left (not_not.mpr hfinished)
      exact fun hmem => hacquired (hsound.2.2.mpr hmem)

/-- A word is dictated, the key is let go, and the session completes. -/
theorem spoken_safe : ∃ c, StepSystem.Reachable (Step id {}) {} c ∧ c.stage = .finished ∧
    c.state = .idle ∧ Safe id {} c := by
  have hstarted : Honest [.advanced .idle .starting, .acquired, .advanced .starting .recording,
      .indicated .recording] {} := by
    simp [Honest]
  have hheld : Honest [.advanced .idle .starting, .acquired, .advanced .starting .recording,
      .indicated .recording, .routed (.final "hello"), .activated, .stopped,
      .advanced .recording .finalizing, .indicated .finalizing] {} := by
    simp [Honest]
  have hreach := (((((((Relation.ReflTransGen.refl (r := Step id {}) (a := {})).tail
    (.press rfl)).tail
    (.acquired false rfl)).tail
    (.select (.event (some (.final "hello")) false {} {}) rfl (Or.inl rfl)
      ⟨rfl, hstarted⟩)).tail
    (.select (.edge (some .release)) rfl (Or.inl rfl) ⟨rfl, rfl⟩)).tail
    (.select (.result (.ok (.completed "hello"))) rfl (Or.inl rfl) rfl)).tail
    (.select (.event none false {} {}) rfl (Or.inl rfl) ⟨rfl, hheld⟩)).tail
    (.conclude {} {} rfl rfl rfl hheld)
  exact ⟨_, hreach, rfl, rfl, run_one_utterance_safe hreach⟩

end Controller

end Desktop

end Myna
