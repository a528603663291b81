import Myna.Core.ConnectionItems
import Myna.Lib.History

/-!
# Myna — the terminal frame of each utterance of an IE115 connection

An utterance ends with a `completed` or an `error`. It may come from the adapter's own terminal
event, from the report of its exception, or from the loop where the adapter left none. The loop asks
whether a terminal event was seen before it adds its own; the report of an exception does not, and a
terminal event counts as seen before it is known whether it can be encoded.

* **`terminalDeeds`**, **`swallowedDeeds`** — what the adapter did to end an utterance;
* **`owed`** — how many terminal frames that comes to once the utterance is left;
* **`Accounted`** — the frames on the wire are those owed;
* **`one_terminal_iff`** — an utterance has one terminal frame exactly where its adapter ended it
  once, or left it to the loop.
-/

namespace Myna

namespace Ie115

/-- The terminal frames of the `j`-th utterance. -/
def terminalsOf (j : ℕ) (wire : List Sent) : ℕ :=
  wire.countP fun x => x.author = .utterance j && x.frame.isTerminal

def terminalsInHand (out : List Outgoing) : ℕ :=
  out.countP fun o => o.writable && o.frame.isTerminal

/-- How often the adapter ended the `j`-th utterance: by a terminal event, or an exception. -/
def terminalDeeds (j : ℕ) (deeds : List Deed) : ℕ :=
  deeds.countP fun
    | .emitted i e => i = j && e.isTerminal && e.isWellFormed
    | .raised i => i = j

/-- How often it emitted a terminal event that has no frame. -/
def swallowedDeeds (j : ℕ) (deeds : List Deed) : ℕ :=
  deeds.countP fun
    | .emitted i e => i = j && e.isTerminal && !e.isWellFormed
    | .raised _ => false

/-- The terminal frames of an utterance that is left: those of the adapter, or the loop's. -/
def owed (j : ℕ) (deeds : List Deed) : ℕ :=
  if terminalDeeds j deeds = 0 then if swallowedDeeds j deeds = 0 then 1 else 0
  else terminalDeeds j deeds

/-- **The adapter ends each utterance once, or leaves it to the loop**: no second terminal event, no
exception after one, and a terminal event that has no frame is followed by an end that has one. -/
def EndsOnce (s : Connection) : Prop :=
  ∀ j, terminalDeeds j s.deeds ≤ 1 ∧
    (j < s.utterance → terminalDeeds j s.deeds = 0 → swallowedDeeds j s.deeds = 0)

/-- **Each utterance has one terminal frame**, on its own item, before any frame of the next. -/
structure OneTerminal (hex : ℕ → String) (s : Speech) : Prop where
  at_most : ∀ j, terminalsOf j s.wire ≤ 1
  /-- An utterance that is left is committed, and unless the connection closed it has its frame. -/
  committed : ∀ j < s.utterance, j < s.commits
  left : s.isOpen = true → ∀ j < s.utterance, terminalsOf j s.wire = 1
  before_next : History.Lawful (fun past x => ∀ k, x.author = .utterance k →
    ∀ j < k, terminalsOf j past = 1) s.wire
  own_item : ∀ x ∈ s.wire, ∀ i, x.author = .utterance i → ∀ id, x.frame.names = some id →
    id = (itemAt hex i).id

/-- Where the handler still runs the utterance's adapter, or drains after it. -/
def HandlerAt.isActive : HandlerAt → Bool
  | .failing => false
  | .finished => false
  | _ => true

/-- A frame of a later utterance is on the wire. -/
def Overtaken (j : ℕ) (wire : List Sent) : Prop := ∃ x ∈ wire, ∃ k, j < k ∧ x.author = .utterance k

/-- **The frames on the wire are those owed.** -/
structure Accounted (s : Connection) : Prop where
  authors : ∀ x ∈ s.speech.wire, ∀ k, x.author = .utterance k → k ≤ s.utterance
  sorted : History.Lawful (fun past x => ∀ k, x.author = .utterance k →
    ∀ y ∈ past, ∀ i, y.author = .utterance i → i ≤ k) s.speech.wire
  hand : s.speech.events.length ≤ 1
  later : ∀ j, s.utterance < j → terminalDeeds j s.deeds = 0 ∧ swallowedDeeds j s.deeds = 0
  seen : s.handler.isActive = true → (s.terminalSeen = true ↔
    0 < terminalDeeds s.utterance s.deeds + swallowedDeeds s.utterance s.deeds)
  failing : s.handler = .failing →
    terminalDeeds s.utterance s.deeds = 0 ∧ swallowedDeeds s.utterance s.deeds = 0
  finished : s.handler = .finished → s.aborted = true
  current_le : s.handler.isActive = true → terminalsOf s.utterance s.speech.wire
    + terminalsInHand s.speech.events ≤ terminalDeeds s.utterance s.deeds
  bounded : terminalsOf s.utterance s.speech.wire + terminalsInHand s.speech.events
    ≤ max 1 (terminalDeeds s.utterance s.deeds)
  current_eq : s.speech.isOpen = true → s.handler.isActive = true → s.aborted = false →
    terminalsOf s.utterance s.speech.wire + terminalsInHand s.speech.events
      = terminalDeeds s.utterance s.deeds
  failing_eq : s.speech.isOpen = true → s.handler = .failing →
    terminalsOf s.utterance s.speech.wire + terminalsInHand s.speech.events = 1
  left_le : ∀ j < s.utterance, terminalsOf j s.speech.wire ≤ max 1 (terminalDeeds j s.deeds)
  left_eq : ∀ j < s.utterance, s.speech.isOpen = true ∨ Overtaken j s.speech.wire →
    terminalsOf j s.speech.wire = owed j s.deeds

variable {hex : ℕ → String} {bytesPerSecond : ℕ} {s t : Connection} {speech : Speech}
  {act : Option Event} {e : Event}

@[simp] theorem terminalsOf_append (j : ℕ) (l l' : List Sent) :
    terminalsOf j (l ++ l') = terminalsOf j l + terminalsOf j l' := List.countP_append

/-- Frames of another author are not terminal frames of the utterance. -/
theorem terminalsOf_other {j : ℕ} {l : List Sent} (h : ∀ x ∈ l, x.author ≠ .utterance j) :
    terminalsOf j l = 0 := by
  refine List.countP_eq_zero.mpr fun x hx => ?_
  simp [h x hx]

theorem terminalDeeds_concat (j : ℕ) (deeds : List Deed) (d : Deed) :
    terminalDeeds j (deeds ++ [d]) = terminalDeeds j deeds + terminalDeeds j [d] :=
  List.countP_append

theorem swallowedDeeds_concat (j : ℕ) (deeds : List Deed) (d : Deed) :
    swallowedDeeds j (deeds ++ [d]) = swallowedDeeds j deeds + swallowedDeeds j [d] :=
  List.countP_append

/-- **What an `emit` puts on the wire and keeps in hand**: the one terminal frame of a terminal
event that is well formed. -/
theorem emit_counts (hlog : Logged hex speech) (hnone : speech.events = []) (e : Event)
    (seconds : ℚ) :
    ∃ more, (speech.emit hex e seconds).wire = speech.wire ++ more ∧
      (∀ x ∈ more, x.author = .utterance speech.utterance) ∧
      (speech.emit hex e seconds).events.length ≤ 1 ∧
      (speech.isOpen = false → more = []) ∧
      (speech.emit hex e seconds).isOpen = speech.isOpen ∧
      terminalsOf speech.utterance more + terminalsInHand (speech.emit hex e seconds).events
        ≤ (e.isTerminal && e.isWellFormed).toNat ∧
      (speech.isOpen = true → terminalsOf speech.utterance more
        + terminalsInHand (speech.emit hex e seconds).events
          = (e.isTerminal && e.isWellFormed).toNat) := by
  rcases emit_eq hlog e seconds with ⟨enc, heq, -, -, hwhy⟩ |
    ⟨enc, out, frame, heq, -, -, -, hone, hencoded⟩
  · have hill : e.isWellFormed = false := by
      rw [Event.isWellFormed]
      rcases hwhy with hfault | ⟨type, hother⟩
      · rw [hfault]
        cases e.content <;> rfl
      · rw [hother]
    refine ⟨[], ?_⟩
    rw [heq, hill, Bool.and_false]
    show speech.wire = speech.wire ++ [] ∧ _
    rw [show ({ speech with encoder := enc } : Speech).events = [] from hnone]
    exact ⟨(List.append_nil _).symm, nofun, Nat.zero_le _, fun _ => rfl, rfl, le_rfl, fun _ => rfl⟩
  · have hwell : (e.isTerminal && e.isWellFormed)
        = (frame.isTerminal && (e.fault != some .unwritable)) := by
      have hreadable := hencoded.readable
      have hknown := hencoded.known
      rw [hencoded.terminal]
      congr 1
      rw [Event.isWellFormed]
      cases hcontent : e.content with
      | other type => exact absurd hcontent (hknown type)
      | _ =>
        cases hfault : e.fault with
        | none => rfl
        | some fault =>
          rw [hfault] at hreadable
          cases fault with
          | unreadable => exact absurd rfl hreadable
          | unwritable => rfl
    rw [heq, hwell, Speech.sendEvents]
    rcases hone with rfl | rfl
    · cases speech.isOpen <;> cases hfault : (e.fault != some .unwritable) <;>
        cases hterminal : frame.isTerminal <;>
        simp [Speech.outgoing, hencoded.creation, sendNext, hfault, terminalsOf, terminalsInHand,
          hterminal]
    · cases speech.isOpen <;> cases hfault : (e.fault != some .unwritable) <;>
        cases hterminal : frame.isTerminal <;>
        simp [Speech.outgoing, hencoded.creation, sendNext, hfault, terminalsOf, terminalsInHand,
          hterminal]

/-- What the next send of an `emit` moves from the hand to the wire. -/
theorem sendEvents_counts (hone : speech.events.length ≤ 1) :
    ∃ more, (speech.sendEvents speech.events).wire = speech.wire ++ more ∧
      (∀ x ∈ more, x.author = .utterance speech.utterance) ∧
      (speech.sendEvents speech.events).events = [] ∧
      (speech.isOpen = false → more = []) ∧
      terminalsOf speech.utterance more ≤ terminalsInHand speech.events ∧
      (speech.isOpen = true → terminalsOf speech.utterance more
        = terminalsInHand speech.events) := by
  rw [Speech.sendEvents]
  cases hevents : speech.events with
  | nil => exact ⟨[], rfl, List.forall_mem_nil _, rfl, fun _ => rfl, le_rfl, fun _ => rfl⟩
  | cons o rest =>
    obtain rfl : rest = [] := by
      rw [hevents, List.length_cons] at hone
      exact List.eq_nil_of_length_eq_zero (by omega)
    cases speech.isOpen <;> cases hwritable : o.writable <;> cases hterminal :
      o.frame.isTerminal <;>
      simp [sendNext, hwritable, terminalsOf, terminalsInHand, hterminal]

/-- Frames of the current utterance, or of the reader, keep the authors in order. -/
theorem Accounted.authors_more (h : Accounted s) {more : List Sent}
    (hmore : ∀ x ∈ more, x.author = .reader ∨ x.author = .utterance s.utterance) :
    (∀ x ∈ s.speech.wire ++ more, ∀ k, x.author = .utterance k → k ≤ s.utterance) ∧
      History.Lawful (fun past x => ∀ k, x.author = .utterance k →
        ∀ y ∈ past, ∀ i, y.author = .utterance i → i ≤ k) (s.speech.wire ++ more) := by
  have hnew : ∀ x ∈ more, ∀ k, x.author = .utterance k → k = s.utterance := by
    intro x hx k hk
    rcases hmore x hx with hreader | hown
    · rw [hk] at hreader
      cases hreader
    · rw [hk] at hown
      exact Author.utterance.inj hown
  have hall : ∀ x ∈ s.speech.wire ++ more, ∀ k, x.author = .utterance k → k ≤ s.utterance := by
    intro x hx k hk
    rcases List.mem_append.mp hx with hold | hx
    · exact h.authors x hold k hk
    · exact (hnew x hx k hk).le
  refine ⟨hall, h.sorted.append fun done x rest hsplit k hk y hy i hi => ?_⟩
  have hx : x ∈ more := by
    rw [hsplit]
    exact List.mem_append_right _ List.mem_cons_self
  rw [hnew x hx k hk]
  refine hall y ?_ i hi
  rcases List.mem_append.mp hy with hold | hdone
  · exact List.mem_append_left _ hold
  · refine List.mem_append_right _ ?_
    rw [hsplit]
    exact List.mem_append_left _ hdone

/-- No frame of a later utterance comes with frames of the current one. -/
theorem overtaken_append {j u : ℕ} {l more : List Sent}
    (hmore : ∀ x ∈ more, x.author = .reader ∨ x.author = .utterance u)
    (h : Overtaken j (l ++ more)) : Overtaken j l ∨ ∃ x ∈ more, x.author = .utterance u := by
  obtain ⟨x, hx, k, hk, hauthor⟩ := h
  rcases List.mem_append.mp hx with hold | hnew
  · exact .inl ⟨x, hold, k, hk, hauthor⟩
  · rcases hmore x hnew with hreader | hown
    · rw [hauthor] at hreader
      cases hreader
    · exact .inr ⟨x, hnew, hown⟩

/-- **A step that ends no utterance**: the reader may send, the connection may close, and what is in
hand may be dropped once the stream is aborted. -/
theorem Accounted.quiet (h : Accounted s) {more : List Sent}
    (hwire : t.speech.wire = s.speech.wire ++ more) (hmore : ∀ x ∈ more, x.author = .reader)
    (hutterance : t.utterance = s.utterance) (hdeeds : t.deeds = s.deeds)
    (hopen : t.speech.isOpen = true → s.speech.isOpen = true)
    (habort : s.aborted = true → t.aborted = true)
    (hevents : t.speech.events = s.speech.events ∨
      t.speech.events = [] ∧ t.aborted = true ∧ t.handler ≠ .failing)
    (hhandler : t.handler = s.handler ∨ t.handler = .draining ∧ s.handler.isActive = true ∨
      t.handler = .finished ∧ t.aborted = true)
    (hseen : t.terminalSeen = s.terminalSeen) : Accounted t := by
  have hnone : ∀ j, terminalsOf j more = 0 := fun j => terminalsOf_other fun x hx => by
    rw [hmore x hx]
    nofun
  have hcount : ∀ j, terminalsOf j t.speech.wire = terminalsOf j s.speech.wire := by
    intro j
    rw [hwire, terminalsOf_append, hnone, Nat.add_zero]
  have hhand : terminalsInHand t.speech.events ≤ terminalsInHand s.speech.events := by
    rcases hevents with heq | ⟨heq, -, -⟩
    · rw [heq]
    · rw [heq]
      exact Nat.zero_le _
  have hactive : t.handler.isActive = true → s.handler.isActive = true := by
    intro ht
    rcases hhandler with heq | ⟨-, hs⟩ | ⟨heq, -⟩
    · rwa [heq] at ht
    · exact hs
    · rw [heq] at ht
      cases ht
  have hfailing : t.handler = .failing → s.handler = .failing := by
    intro ht
    rcases hhandler with heq | ⟨heq, -⟩ | ⟨heq, -⟩
    · rwa [heq] at ht
    · rw [ht] at heq
      cases heq
    · rw [ht] at heq
      cases heq
  obtain ⟨hauthors, hsorted⟩ := h.authors_more fun x hx => .inl (hmore x hx)
  refine ⟨?_, ?_, ?_, ?_, ?_, ?_, ?_, ?_, ?_, ?_, ?_, ?_, ?_⟩
  · rw [hwire, hutterance]
    exact hauthors
  · rw [hwire]
    exact hsorted
  · rcases hevents with heq | ⟨heq, -, -⟩
    · rw [heq]
      exact h.hand
    · rw [heq]
      exact Nat.zero_le _
  · rw [hutterance, hdeeds]
    exact h.later
  · rw [hutterance, hdeeds, hseen]
    exact fun ht => h.seen (hactive ht)
  · rw [hutterance, hdeeds]
    exact fun ht => h.failing (hfailing ht)
  · intro ht
    rcases hhandler with heq | ⟨heq, -⟩ | ⟨-, haborted⟩
    · exact habort (h.finished (heq ▸ ht))
    · rw [ht] at heq
      cases heq
    · exact haborted
  · rw [hutterance, hdeeds, hcount]
    exact fun ht => (Nat.add_le_add_left hhand _).trans (h.current_le (hactive ht))
  · rw [hutterance, hdeeds, hcount]
    exact (Nat.add_le_add_left hhand _).trans h.bounded
  · rw [hutterance, hdeeds, hcount]
    intro hisOpen ht haborted
    rcases hevents with heq | ⟨-, hab, -⟩
    · rw [heq]
      refine h.current_eq (hopen hisOpen) (hactive ht) ?_
      by_contra hab
      rw [habort (Bool.not_eq_false _ ▸ hab)] at haborted
      cases haborted
    · rw [hab] at haborted
      cases haborted
  · rw [hutterance, hcount]
    intro hisOpen ht
    rcases hevents with heq | ⟨-, -, hne⟩
    · rw [heq]
      exact h.failing_eq (hopen hisOpen) (hfailing ht)
    · exact absurd ht hne
  · rw [hutterance, hdeeds]
    intro j hj
    rw [hcount]
    exact h.left_le j hj
  · rw [hutterance, hdeeds]
    intro j hj hwhy
    rw [hcount]
    refine h.left_eq j hj ?_
    rcases hwhy with hisOpen | hover
    · exact .inl (hopen hisOpen)
    · rw [hwire] at hover
      rcases overtaken_append (u := s.utterance)
        (fun x hx => .inl (hmore x hx)) hover with hold | ⟨x, hx, hown⟩
      · exact .inr hold
      · rw [hmore x hx] at hown
        cases hown

/-- **Frames of the current utterance** leave the earlier ones as they are. -/
theorem Accounted.spoken (h : Accounted s) {more : List Sent}
    (hwire : t.speech.wire = s.speech.wire ++ more)
    (hmore : ∀ x ∈ more, x.author = .utterance s.utterance)
    (hclosed : s.speech.isOpen = false → more = []) (hopen : t.speech.isOpen = s.speech.isOpen)
    (hdeeds : ∀ j, j ≠ s.utterance → terminalDeeds j t.deeds = terminalDeeds j s.deeds ∧
      swallowedDeeds j t.deeds = swallowedDeeds j s.deeds) :
    (∀ j, s.utterance < j → terminalDeeds j t.deeds = 0 ∧ swallowedDeeds j t.deeds = 0) ∧
      (∀ j < s.utterance, terminalsOf j t.speech.wire ≤ max 1 (terminalDeeds j t.deeds)) ∧
      ∀ j < s.utterance, t.speech.isOpen = true ∨ Overtaken j t.speech.wire →
        terminalsOf j t.speech.wire = owed j t.deeds := by
  have hcount : ∀ j < s.utterance, terminalsOf j t.speech.wire = terminalsOf j s.speech.wire := by
    intro j hj
    have hnone : terminalsOf j more = 0 := terminalsOf_other fun x hx hauthor => by
      rw [hmore x hx] at hauthor
      exact hj.ne' (Author.utterance.inj hauthor)
    rw [hwire, terminalsOf_append, hnone, Nat.add_zero]
  refine ⟨?_, ?_, ?_⟩
  · intro j hj
    obtain ⟨hterminal, hswallowed⟩ := hdeeds j hj.ne'
    rw [hterminal, hswallowed]
    exact h.later j hj
  · intro j hj
    rw [hcount j hj, (hdeeds j hj.ne).1]
    exact h.left_le j hj
  · intro j hj hwhy
    rw [hcount j hj, owed, (hdeeds j hj.ne).1, (hdeeds j hj.ne).2]
    refine h.left_eq j hj ?_
    rcases hwhy with hisOpen | hover
    · exact .inl (hopen ▸ hisOpen)
    · rw [hwire] at hover
      rcases overtaken_append (fun x hx => .inr (hmore x hx)) hover with hold | ⟨x, hx, -⟩
      · exact .inr hold
      · -- a frame is only sent while the connection is open
        left
        by_contra hshut
        rw [hclosed (by simpa using hshut)] at hx
        cases hx

/-- What an `emit` of the adapter, or of the report of its exception, adds to the account. -/
theorem Accounted.emit (h : Accounted s) (hlog : Logged hex s.speech)
    (hnone : s.speech.events = []) (hactive : s.handler.isActive = true) {d : Deed}
    (hspeech : t.speech = s.speech.emit hex e s.seconds) (hdeeds : t.deeds = s.deeds ++ [d])
    (hnew : terminalDeeds s.utterance [d] = (e.isTerminal && e.isWellFormed).toNat)
    (hswallowed : swallowedDeeds s.utterance [d] = (e.isTerminal && !e.isWellFormed).toNat)
    (hother : ∀ j, j ≠ s.utterance → terminalDeeds j [d] = 0 ∧ swallowedDeeds j [d] = 0)
    (hhandler : t.handler.isActive = true) (haborted : t.aborted = s.aborted)
    (hseen : t.terminalSeen = (s.terminalSeen || e.isTerminal)) : Accounted t := by
  obtain ⟨more, hwire, hmore, hone, hclosed, hopen, hle, heq⟩ := emit_counts hlog hnone e s.seconds
  have hutterance : t.utterance = s.utterance := by
    rw [Connection.utterance, hspeech]
    exact (@emit_frame hex _ e s.seconds).1
  have hterminal : ∀ j, terminalDeeds j t.deeds = terminalDeeds j s.deeds + terminalDeeds j [d] :=
    fun j => by rw [hdeeds, terminalDeeds_concat]
  have hswallow : ∀ j, swallowedDeeds j t.deeds
      = swallowedDeeds j s.deeds + swallowedDeeds j [d] :=
    fun j => by rw [hdeeds, swallowedDeeds_concat]
  have hin : terminalsInHand s.speech.events = 0 := by
    rw [hnone]
    rfl
  rw [← hspeech] at hwire hone hopen hle heq
  obtain ⟨hauthors, hsorted⟩ := h.authors_more fun x hx => .inr (hmore x hx)
  obtain ⟨hlater, hleft, hlefteq⟩ := h.spoken (t := t) hwire hmore hclosed hopen
    fun j hj => by
      obtain ⟨hzero, hzero'⟩ := hother j hj
      rw [hterminal, hswallow, hzero, hzero']
      exact ⟨rfl, rfl⟩
  have hcurrent : terminalsOf s.utterance t.speech.wire + terminalsInHand t.speech.events
      ≤ terminalDeeds s.utterance t.deeds := by
    have hold := h.current_le hactive
    rw [hwire, terminalsOf_append, hterminal, hnew]
    change terminalsOf s.utterance more + _ ≤ _ at hle
    omega
  rw [← hutterance] at hlater hleft hlefteq hcurrent
  refine ⟨?_, ?_, hone, hlater, ?_, ?_, ?_, fun _ => hcurrent,
    hcurrent.trans (Nat.le_max_right _ _), ?_, ?_, hleft, hlefteq⟩
  · rw [hwire, hutterance]
    exact hauthors
  · rw [hwire]
    exact hsorted
  · intro _
    have hsum : (e.isTerminal && e.isWellFormed).toNat + (e.isTerminal && !e.isWellFormed).toNat
        = e.isTerminal.toNat := by
      cases e.isTerminal <;> cases e.isWellFormed <;> rfl
    have hpos : e.isTerminal = true ↔ 0 < e.isTerminal.toNat := by
      cases e.isTerminal <;> decide
    rw [hseen, hutterance, hterminal, hswallow, hnew, hswallowed, Bool.or_eq_true, h.seen hactive,
      hpos]
    omega
  · intro ht
    rw [ht] at hhandler
    cases hhandler
  · intro ht
    rw [ht] at hhandler
    cases hhandler
  · intro hisOpen _ hab
    rw [hopen] at hisOpen
    rw [haborted] at hab
    have hold := h.current_eq hisOpen hactive hab
    have hmoreq := heq hisOpen
    rw [hutterance, hwire, terminalsOf_append, hterminal, hnew]
    change terminalsOf s.utterance more + _ = _ at hmoreq
    omega
  · intro _ ht
    rw [ht] at hhandler
    cases hhandler

/-- **The loop's own terminal** comes where the adapter left none. -/
theorem Accounted.fallback (h : Accounted s) (hlog : Logged hex s.speech)
    (hnone : s.speech.events = []) (hactive : s.handler.isActive = true)
    (hterminal : s.terminalSeen = false) :
    Accounted { s.emit hex Connection.noTerminal with handler := .failing } := by
  obtain ⟨more, hwire, hmore, hone, hclosed, hopen, hle, heq⟩ :=
    emit_counts hlog hnone Connection.noTerminal s.seconds
  have hfree : terminalDeeds s.utterance s.deeds = 0 ∧ swallowedDeeds s.utterance s.deeds = 0 := by
    have hseen := (h.seen hactive).not
    rw [hterminal] at hseen
    have hzero := hseen.mp Bool.false_ne_true
    omega
  have hin : terminalsInHand s.speech.events = 0 := by
    rw [hnone]
    rfl
  have hutterance : (s.speech.emit hex Connection.noTerminal s.seconds).utterance = s.utterance :=
    (@emit_frame hex _ Connection.noTerminal s.seconds).1
  obtain ⟨hauthors, hsorted⟩ := h.authors_more fun x hx => .inr (hmore x hx)
  obtain ⟨hlater, hleft, hlefteq⟩ :=
    h.spoken (t := { s.emit hex Connection.noTerminal with handler := .failing }) hwire hmore
      hclosed hopen fun j _ => ⟨rfl, rfl⟩
  have hzero : terminalsOf s.utterance s.speech.wire = 0 := by
    have hold := h.current_le hactive
    omega
  have hcurrent : terminalsOf s.utterance (s.speech.emit hex Connection.noTerminal s.seconds).wire
      + terminalsInHand (s.speech.emit hex Connection.noTerminal s.seconds).events ≤ 1 := by
    rw [hwire, terminalsOf_append, hzero, Nat.zero_add]
    exact hle
  rw [← hutterance] at hlater hleft hlefteq
  refine ⟨?_, ?_, hone, hlater, nofun, fun _ => ?_, nofun, nofun, ?_, nofun, ?_, hleft, hlefteq⟩
  · show ∀ x ∈ (s.speech.emit hex Connection.noTerminal s.seconds).wire, ∀ k,
      x.author = .utterance k → k ≤ (s.speech.emit hex Connection.noTerminal s.seconds).utterance
    rw [hwire, hutterance]
    exact hauthors
  · show History.Lawful _ (s.speech.emit hex Connection.noTerminal s.seconds).wire
    rw [hwire]
    exact hsorted
  · show terminalDeeds (s.speech.emit hex Connection.noTerminal s.seconds).utterance s.deeds = 0 ∧
      swallowedDeeds (s.speech.emit hex Connection.noTerminal s.seconds).utterance s.deeds = 0
    rw [hutterance]
    exact hfree
  · show terminalsOf (s.speech.emit hex Connection.noTerminal s.seconds).utterance _ + _ ≤ _
    rw [hutterance]
    exact hcurrent.trans (Nat.le_max_left _ _)
  · intro hisOpen _
    have hmoreq := heq (hopen ▸ hisOpen)
    show terminalsOf (s.speech.emit hex Connection.noTerminal s.seconds).utterance _ + _ = 1
    rw [hutterance]
    show terminalsOf s.utterance (s.speech.emit hex Connection.noTerminal s.seconds).wire + _ = 1
    rw [hwire, terminalsOf_append, hzero, Nat.zero_add]
    exact hmoreq

/-- The frame in hand goes to the wire. -/
theorem Accounted.send (h : Accounted s) :
    Accounted { s with speech := s.speech.sendEvents s.speech.events } := by
  obtain ⟨more, hwire, hmore, hnone, hclosed, hle, heq⟩ := sendEvents_counts h.hand
  obtain ⟨hauthors, hsorted⟩ := h.authors_more fun x hx => .inr (hmore x hx)
  obtain ⟨hlater, hleft, hlefteq⟩ :=
    h.spoken (t := { s with speech := s.speech.sendEvents s.speech.events }) hwire hmore hclosed rfl
      fun j _ => ⟨rfl, rfl⟩
  have hcount : terminalsOf s.utterance (s.speech.sendEvents s.speech.events).wire
      + terminalsInHand (s.speech.sendEvents s.speech.events).events
        = terminalsOf s.utterance s.speech.wire + terminalsOf s.utterance more := by
    rw [hnone, hwire, terminalsOf_append]
    rfl
  have hless : terminalsOf s.utterance (s.speech.sendEvents s.speech.events).wire
      + terminalsInHand (s.speech.sendEvents s.speech.events).events
        ≤ terminalsOf s.utterance s.speech.wire + terminalsInHand s.speech.events := by
    rw [hcount]
    exact Nat.add_le_add_left hle _
  have hsame : s.speech.isOpen = true →
      terminalsOf s.utterance (s.speech.sendEvents s.speech.events).wire
        + terminalsInHand (s.speech.sendEvents s.speech.events).events
          = terminalsOf s.utterance s.speech.wire + terminalsInHand s.speech.events := by
    intro hopen
    rw [hcount]
    exact congrArg _ (heq hopen)
  refine ⟨?_, ?_, ?_, hlater, h.seen, h.failing, h.finished,
    fun ht => hless.trans (h.current_le ht), hless.trans h.bounded,
    fun hopen ht hab => (hsame hopen).trans (h.current_eq hopen ht hab),
    fun hopen ht => (hsame hopen).trans (h.failing_eq hopen ht), hleft, hlefteq⟩
  · show ∀ x ∈ (s.speech.sendEvents s.speech.events).wire, _
    rw [hwire]
    exact hauthors
  · show History.Lawful _ (s.speech.sendEvents s.speech.events).wire
    rw [hwire]
    exact hsorted
  · show (s.speech.sendEvents s.speech.events).events.length ≤ 1
    rw [hnone]
    exact Nat.zero_le _

/-- **The next utterance** begins once the last one has what it is owed. -/
theorem Accounted.begin (h : Accounted s) (hnone : s.speech.events = [])
    (howed : s.speech.isOpen = true → terminalsOf s.utterance s.speech.wire
      = owed s.utterance s.deeds) (run : Ingress.Run) : Accounted (s.begin run) := by
  have hnext : ∀ j, s.utterance < j → terminalsOf j s.speech.wire = 0 := by
    intro j hj
    refine terminalsOf_other fun x hx hauthor => ?_
    have hle := h.authors x hx j hauthor
    omega
  have hfree := h.later (s.utterance + 1) (Nat.lt_succ_self _)
  have hin : terminalsInHand s.speech.events = 0 := by
    rw [hnone]
    rfl
  have hzero : terminalsOf (s.utterance + 1) s.speech.wire + terminalsInHand
    s.speech.events = 0 := by
    rw [hnext _ (Nat.lt_succ_self _), hin]
  refine ⟨fun x hx k hk => (h.authors x hx k hk).trans (Nat.le_succ _), h.sorted, h.hand,
    fun j hj => h.later j ((Nat.lt_succ_self _).trans hj), ?_, nofun, nofun, fun _ => ?_, ?_,
    fun _ _ _ => ?_, nofun, ?_, ?_⟩
  · intro _
    show false = true ↔ 0 < terminalDeeds (s.utterance + 1) s.deeds
      + swallowedDeeds (s.utterance + 1) s.deeds
    rw [hfree.1, hfree.2]
    simp
  · show terminalsOf (s.utterance + 1) s.speech.wire + terminalsInHand s.speech.events ≤ _
    rw [hzero]
    exact Nat.zero_le _
  · show terminalsOf (s.utterance + 1) s.speech.wire + terminalsInHand s.speech.events ≤ _
    rw [hzero]
    exact Nat.zero_le _
  · show terminalsOf (s.utterance + 1) s.speech.wire + terminalsInHand s.speech.events
      = terminalDeeds (s.utterance + 1) s.deeds
    rw [hzero, hfree.1]
  · intro j hj
    rcases Nat.lt_succ_iff_lt_or_eq.mp hj with hlt | rfl
    · exact h.left_le j hlt
    · exact (Nat.le_add_right _ _).trans h.bounded
  · intro j hj hwhy
    rcases Nat.lt_succ_iff_lt_or_eq.mp hj with hlt | rfl
    · exact h.left_eq j hlt hwhy
    · rcases hwhy with hopen | ⟨x, hx, k, hk, hauthor⟩
      · exact howed hopen
      · -- nobody speaks of a later utterance yet
        have hle : k ≤ s.speech.utterance := h.authors x hx k hauthor
        omega

/-- An abort aborts. -/
theorem took_abort {r r' : Ingress.Run} {events : List Ingress.Event}
    (htook : r.Took .abort events r') : r'.queue.aborted = true := by
  obtain ⟨hnext, -⟩ := htook
  obtain ⟨-, heq⟩ := Prod.mk.inj (Option.some.inj hnext)
  rw [← heq]
  show (Ingress.cancelSession _).aborted = true
  rw [Ingress.cancelSession]
  split <;> rfl

/-- Whoever pulls changes nothing that is accounted for. -/
theorem Accounted.pull (h : Accounted s) {a : Ingress.Action} {task : Ingress.TaskId}
    {events : List Ingress.Event} {run : Ingress.Run} (htook : s.ingress.Took a events run)
    (ha : a = .get task ∨ a = .resume task) (ht : s.puller = some task) (hended : s.ended = false) :
    Accounted (Connection.hearAll bytesPerSecond { s with ingress := run } events) := by
  obtain ⟨seconds, ended, closed, hhear, -⟩ :=
    @took_pulled bytesPerSecond _ _ _ _ _ htook ha (puller_ne ht) hended
  rw [hhear]
  exact @Accounted.quiet _ _ h [] (List.append_nil _).symm nofun rfl rfl id
    (Ingress.next_aborted htook.1) (.inl rfl) (.inl rfl) rfl

/-- **One step** keeps the account. -/
theorem Step.accounted (hstep : Step hex bytesPerSecond act s t) (hsound : Sound hex s)
    (h : Accounted s) : Accounted t := by
  have hsame : s.speech.wire = s.speech.wire ++ [] := (List.append_nil _).symm
  have hreader : ∀ (out : List Frame), ∀ x ∈ out.map (Sent.mk .reader), x.author = .reader := by
    intro out x hx
    obtain ⟨f, -, rfl⟩ := List.mem_map.mp hx
    rfl
  cases hstep with
  | audio pcm hlistening htook =>
    exact h.quiet hsame nofun rfl rfl id (Ingress.next_aborted htook.1) (.inl rfl) (.inl rfl) rfl
  | readerResumes htook =>
    exact h.quiet hsame nofun rfl rfl id (Ingress.next_aborted htook.1) (.inl rfl) (.inl rfl) rfl
  | commit hlistening hfree =>
    exact h.quiet rfl (hreader _) rfl rfl id id (.inl rfl) (.inl rfl) rfl
  | acknowledge hreaderAt hhand =>
    exact h.quiet rfl (hreader _) rfl rfl id id (.inl rfl) (.inl rfl) rfl
  | flush pcm hreaderAt hhand htook =>
    exact h.quiet hsame nofun rfl rfl id (Ingress.next_aborted htook.1) (.inl rfl) (.inl rfl) rfl
  | mark hreaderAt htook =>
    exact h.quiet hsame nofun rfl rfl id (Ingress.next_aborted htook.1) (.inl rfl) (.inl rfl) rfl
  | marked hreaderAt hfree =>
    exact h.quiet hsame nofun rfl rfl id id (.inl rfl) (.inl rfl) rfl
  | refuse exc hreaderAt hhand hfree =>
    refine @Accounted.quiet _ _ h
      ((sendNext s.speech.isOpen (Speech.outgoing (Speech.badClientFrame exc)
      (s.speech.encoder.announcements ++ [Speech.refusal exc]))).1.map (Sent.mk .reader)) ?_
      (hreader _) ?_ rfl ?_ id (.inl ?_) (.inl rfl) rfl
    · rfl
    · rfl
    · exact fun hopen => hopen
    · rfl
  | refusing hreaderAt hhand =>
    exact h.quiet rfl (hreader _) rfl rfl id id (.inl rfl) (.inl rfl) rfl
  | refused hreaderAt hhand htook =>
    exact h.quiet hsame nofun rfl rfl id (Ingress.next_aborted htook.1) (.inl rfl) (.inl rfl) rfl
  | leave hreaderAt hfree habort hclose =>
    exact h.quiet hsame nofun rfl rfl id
      (fun hab => Ingress.next_aborted hclose.1 (Ingress.next_aborted habort.1 hab)) (.inl rfl)
      (.inl rfl) rfl
  | stop hhandler htook =>
    exact h.quiet hsame nofun rfl rfl nofun (Ingress.next_aborted htook.1) (.inl rfl) (.inl rfl) rfl
  | emits e hhandler hhand hfree =>
    have hactive : s.handler.isActive = true := by
      rw [hhandler]
      rfl
    refine h.emit hsound.logged hhand hactive (d := .emitted s.utterance e) rfl rfl ?_ ?_ ?_ hactive
      rfl rfl
    · cases hterminal : e.isTerminal <;> cases hwell : e.isWellFormed <;>
        simp [terminalDeeds, hterminal, hwell]
    · cases hterminal : e.isTerminal <;> cases hwell : e.isWellFormed <;>
        simp [swallowedDeeds, hterminal, hwell]
    · intro j hj
      simp [terminalDeeds, swallowedDeeds, hj.symm]
  | sends hhand => exact h.send
  | pulls ht hhand hended htook => exact h.pull htook (.inl rfl) ht hended
  | pullResumes ht hended htook => exact h.pull htook (.inr rfl) ht hended
  | pullCancelled hhandler htook =>
    exact h.quiet hsame nofun rfl rfl id (Ingress.next_aborted htook.1) (.inl rfl) (.inl rfl) rfl
  | returns hhandler hhand hfree =>
    exact h.quiet hsame nofun rfl rfl id id (.inl rfl)
      (.inr (.inl ⟨rfl, by rw [hhandler]; rfl⟩)) rfl
  | raises exc hhandler hhand hfree =>
    have hactive : s.handler.isActive = true := by
      rw [hhandler]
      rfl
    refine h.emit hsound.logged hhand hactive (e := Connection.adapterCrash exc)
      (d := .raised s.utterance) rfl rfl ?_ ?_ ?_ rfl rfl rfl
    · simp [terminalDeeds, Connection.adapterCrash, Event.isTerminal, Event.isWellFormed, TERMINAL,
        TranscriptionEvent.type]
    · simp [swallowedDeeds, Connection.adapterCrash, Event.isWellFormed]
    · intro j hj
      simp [terminalDeeds, swallowedDeeds, hj.symm]
  | reported hhandler hhand =>
    exact h.quiet hsame nofun rfl rfl id id (.inl rfl)
      (.inr (.inl ⟨rfl, by rw [hhandler]; rfl⟩)) rfl
  | cancelled hhandler htook =>
    exact h.quiet hsame nofun rfl rfl id (Ingress.next_aborted htook.1)
      (.inr ⟨rfl, took_abort htook, nofun⟩) (.inr (.inl ⟨rfl, by rw [hhandler]; rfl⟩)) rfl
  | interrupted hhandler haborted =>
    refine h.quiet hsame nofun rfl rfl id id (.inr ⟨rfl, haborted, ?_⟩) (.inl rfl) rfl
    rintro hfailing
    rw [show _ = s.handler from rfl, hhandler] at hfailing
    cases hfailing
  | finish hhandler hend htook =>
    exact h.quiet hsame nofun rfl rfl id (Ingress.next_aborted htook.1) (.inl rfl)
      (.inr (.inr ⟨rfl, took_abort htook⟩)) rfl
  | next hhandler hended hclosed haborted hterminal htook =>
    have hactive : s.handler.isActive = true := by
      rw [hhandler]
      rfl
    have hnone := hsound.balanced.events (.inl hhandler)
    refine h.begin hnone (fun hopen => ?_) _
    have heq := h.current_eq hopen hactive haborted
    have hpos := (h.seen hactive).mp hterminal
    rw [hnone, show terminalsInHand [] = 0 from rfl, Nat.add_zero] at heq
    rw [heq, owed]
    split_ifs <;> omega
  | fallback hhandler hended hclosed haborted hterminal =>
    have hactive : s.handler.isActive = true := by
      rw [hhandler]
      rfl
    exact h.fallback hsound.logged (hsound.balanced.events (.inl hhandler)) hactive hterminal
  | failed hhandler hhand htook =>
    refine h.begin hhand (fun hopen => ?_) _
    obtain ⟨hzero, hzero'⟩ := h.failing hhandler
    have heq := h.failing_eq hopen hhandler
    rw [hhand, show terminalsInHand [] = 0 from rfl, Nat.add_zero] at heq
    rw [heq, owed, if_pos hzero, if_pos hzero']
  | shutDown htook =>
    exact h.quiet hsame nofun rfl rfl id (Ingress.next_aborted htook.1)
      (.inr ⟨rfl, took_abort htook, nofun⟩) (.inr (.inr ⟨rfl, took_abort htook⟩)) rfl
  | aborts htook =>
    exact h.quiet hsame nofun rfl rfl id (Ingress.next_aborted htook.1) (.inl rfl) (.inl rfl) rfl
  | disconnects => exact h.quiet hsame nofun rfl rfl nofun id (.inl rfl) (.inl rfl) rfl

theorem accounted_init (bounds : Ingress.Bounds) : Accounted (Connection.init bounds) := by
  refine ⟨nofun, History.lawful_nil, Nat.zero_le _, fun _ _ => ⟨rfl, rfl⟩, fun _ =>
    ?_, nofun, nofun,
    fun _ => le_rfl, Nat.zero_le _, fun _ _ _ => rfl, nofun, nofun, nofun⟩
  show false = true ↔ 0 < 0
  decide

theorem Reaches.accounted {bounds : Ingress.Bounds} (h : Reaches hex bytesPerSecond bounds s) :
    Sound hex s ∧ Accounted s :=
  StepSystem.reachable_induction (I := fun s => Sound hex s ∧ Accounted s) h
    ⟨sound_init bounds, accounted_init bounds⟩ fun _ _ hs ⟨_, hstep⟩ =>
      ⟨hstep.sound hs.1, hstep.accounted hs.1 hs.2⟩

/-- What is owed for an utterance that was ended once. -/
theorem owed_eq_one_iff {j : ℕ} {deeds : List Deed} :
    owed j deeds = 1 ↔ terminalDeeds j deeds ≤ 1 ∧
      (terminalDeeds j deeds = 0 → swallowedDeeds j deeds = 0) := by
  rw [owed]
  split_ifs with hterminal hswallowed
  · exact ⟨fun _ => ⟨hterminal.trans_le (Nat.zero_le 1), fun _ => hswallowed⟩, fun _ => rfl⟩
  · exact ⟨nofun, fun h => absurd (h.2 hterminal) hswallowed⟩
  · exact ⟨fun h => ⟨h.le, fun hzero => absurd hzero hterminal⟩, fun h => by omega⟩

/-- An adapter that ends each utterance once leaves each with one terminal frame. -/
theorem Accounted.one_terminal (hsound : Sound hex s) (h : Accounted s) (hends : EndsOnce s) :
    OneTerminal hex s.speech := by
  have howed : ∀ j < s.utterance, owed j s.deeds = 1 := fun j hj =>
    owed_eq_one_iff.mpr ⟨(hends j).1, (hends j).2 hj⟩
  refine ⟨?_, ?_, ?_, ?_, ?_⟩
  · intro j
    rcases lt_trichotomy j s.utterance with hlt | rfl | hgt
    · exact (h.left_le j hlt).trans (max_le le_rfl (hends j).1)
    · exact (Nat.le_add_right _ _).trans (h.bounded.trans (max_le le_rfl (hends _).1))
    · refine (terminalsOf_other fun x hx hauthor => ?_).trans_le (Nat.zero_le 1)
      have hle := h.authors x hx j hauthor
      omega
  · exact fun j hj => hj.trans_le hsound.logged.stands.paired.le
  · intro hopen j hj
    rw [h.left_eq j hj (.inl hopen), howed j hj]
  · -- from the first frame of a later utterance on, none is of this one
    intro past x later hsplit k hk j hj
    have hmem : x ∈ s.speech.wire := by
      rw [hsplit]
      exact List.mem_append_right _ List.mem_cons_self
    have hku : k ≤ s.utterance := h.authors x hmem k hk
    have hafter : terminalsOf j (x :: later) = 0 := by
      refine terminalsOf_other fun y hy hauthor => ?_
      rcases List.mem_cons.mp hy with rfl | hlater
      · rw [hk] at hauthor
        exact hj.ne' (Author.utterance.inj hauthor)
      · obtain ⟨mid, rest, rfl⟩ := List.append_of_mem hlater
        have hkj := h.sorted (past ++ x :: mid) y rest (by rw [hsplit]; simp) j hauthor x
          (by simp) k hk
        omega
    have hall := h.left_eq j (hj.trans_le hku) (.inr ⟨x, hmem, k, hj, hk⟩)
    rw [howed j (hj.trans_le hku), hsplit, terminalsOf_append, hafter, Nat.add_zero] at hall
    exact hall
  · intro x hx i hi id hid
    obtain ⟨i', -, hauthor, hitem⟩ := hsound.logged.named x (hsound.delivered.wire x hx) id hid
    rw [hi] at hauthor
    obtain rfl := Author.utterance.inj hauthor
    rw [hitem, itemAt_id]

/-- One terminal frame for each utterance comes of an adapter that ends each once. -/
theorem Accounted.ends_once (h : Accounted s)
    (hopen : s.speech.isOpen = true) (haborted : s.aborted = false) (hnone : s.speech.events = [])
    (hone : OneTerminal hex s.speech) : EndsOnce s := by
  have hin : terminalsInHand s.speech.events = 0 := by
    rw [hnone]
    rfl
  intro j
  rcases lt_trichotomy j s.utterance with hlt | rfl | hgt
  · have howed := h.left_eq j hlt (.inl hopen)
    rw [hone.left hopen j hlt] at howed
    obtain ⟨hle, hzero⟩ := owed_eq_one_iff.mp howed.symm
    exact ⟨hle, fun _ => hzero⟩
  · refine ⟨?_, fun hlt => absurd hlt (lt_irrefl _)⟩
    cases hactive : s.handler.isActive with
    | true =>
      have heq := h.current_eq hopen hactive haborted
      have hle := hone.at_most s.utterance
      omega
    | false =>
      cases hhandler : s.handler with
      | failing => exact (h.failing hhandler).1.trans_le (Nat.zero_le 1)
      | finished =>
        have hab := h.finished hhandler
        rw [haborted] at hab
        cases hab
      | _ =>
        rw [hhandler] at hactive
        cases hactive
  · obtain ⟨hzero, hzero'⟩ := h.later j hgt
    exact ⟨hzero.trans_le (Nat.zero_le 1), fun hlt => absurd hlt hgt.not_gt⟩

/-- **One terminal frame for each utterance, exactly where its adapter ends it once.** The converse
is of a connection that is open and not aborted, with nothing in hand. -/
theorem one_terminal_iff {bounds : Ingress.Bounds} (h : Reaches hex bytesPerSecond bounds s) :
    (EndsOnce s → OneTerminal hex s.speech) ∧
      (s.speech.isOpen = true → s.aborted = false → s.speech.events = [] →
        (OneTerminal hex s.speech ↔ EndsOnce s)) := by
  obtain ⟨hsound, haccounted⟩ := h.accounted
  refine ⟨haccounted.one_terminal hsound, fun hopen haborted hnone => ⟨?_, ?_⟩⟩
  · exact haccounted.ends_once hopen haborted hnone
  · exact haccounted.one_terminal hsound

def done : Event := { content := .done "Hallo" [] }

/-- The adapter is done: the item is announced, and `completed` in hand. -/
def doneEarly : Connection :=
  let s := Connection.init Ingress.tenBytes
  { s.emit strokes done with deeds := [.emitted 0 done] }

theorem doneEarly_reached : Reaches strokes 32000 Ingress.tenBytes
    { doneEarly with speech := doneEarly.speech.sendEvents doneEarly.speech.events } :=
  (Relation.ReflTransGen.refl.tail ⟨_, .emits done rfl rfl rfl⟩).tail
    ⟨_, .sends (s := doneEarly) (List.cons_ne_nil _ _)⟩

theorem doneEarly_one_terminal :
    OneTerminal strokes (doneEarly.speech.sendEvents doneEarly.speech.events) ∧
      (doneEarly.speech.sendEvents doneEarly.speech.events).wire =
        [⟨.utterance 0, .created "item_" none⟩,
          ⟨.utterance 0, .completed "item_" 0 "Hallo" 0 []⟩] := by
  refine ⟨(one_terminal_iff doneEarly_reached).1 fun j =>
    ⟨?_, fun hj => absurd hj (Nat.not_lt_zero j)⟩,
    rfl⟩
  exact List.countP_le_length

/-- An exception after `done` adds an `error` to the `completed`. -/
theorem raised_after_done : ¬ ∀ (hex : ℕ → String) (bytesPerSecond : ℕ) (bounds : Ingress.Bounds)
    (s : Connection), Reaches hex bytesPerSecond bounds s → OneTerminal hex s.speech := by
  intro h
  have hreached : Reaches strokes 32000 Ingress.tenBytes _ := doneEarly_reached.tail
    ⟨_, .raises "RuntimeError: boom" rfl rfl rfl⟩
  have htwo := (h _ _ _ _ hreached).at_most 0
  revert htwo
  decide

end Ie115

end Myna
