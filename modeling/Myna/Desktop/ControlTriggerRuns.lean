import Myna.Desktop.ControlTriggerTurns

/-!
# Myna — presses, repeats and cancellation

The control trigger over whole runs: pokes at any time, polls, dropped polls, discards and resyncs.

* **`World.Ok`**, **`run_ok`** — the invariant of a run;
* **`toggled_and_repeated`** — one toggle for a press and its repeats;
* **`toggles_survive`** — alternation, bursts, cancellation and discarding.
-/

namespace Myna

namespace Desktop

namespace Shortcut

open History (Lawful)
open ControlTrigger

/-! ## The invariant of a run -/

/-- The edge that comes after what was said last: a press, but for the one that ends a press. -/
def edgeAfter : Option Said → TriggerEdge
  | some (.edge .press) => .release
  | _ => .press

/-- Every edge is the one that comes after what was said just before it. -/
def Alternates (past : List Said) : Said → Prop
  | .edge e => e = edgeAfter past.getLast?
  | .resync => True

def Said.isEdge : Said → Bool
  | .edge _ => true
  | .resync => false

structure World.Ok (w : World) : Prop where
  sound : w.trigger.Sound w.now
  future : ∀ a, w.future = some a → w.trigger.Stands a
  taken : w.trigger.arrivals.Sublist w.sent
  numbered : w.sent.map Arrival.number = List.range w.sent.length
  last : w.trigger.last = w.sent.getLast?.map Arrival.time
  count : w.said.countP Said.isEdge = w.trigger.toggles
  alternates : Lawful Alternates w.said
  pressed : w.trigger.pressed = decide (w.said.getLast? = some (.edge .press))

theorem World.Ok.nextEdge_eq {w : World} (h : w.Ok) :
    w.trigger.nextEdge = edgeAfter w.said.getLast? := by
  unfold ControlTrigger.nextEdge
  rw [h.pressed]
  rcases w.said.getLast? with _ | ⟨_ | _⟩ | _ <;> rfl

theorem init_ok : World.Ok {} where
  sound :=
    { quiet := rfl
      alone := by simp
      lawful := History.lawful_nil
      paired := paired_of_no_repeat (by simp)
      stream := by simp
      window := by simp }
  future := by simp
  taken := List.Sublist.refl _
  numbered := rfl
  last := rfl
  count := rfl
  alternates := History.lawful_nil
  pressed := rfl

/-- The arrivals are numbered as they were sent. -/
theorem number_eq {sent : List Arrival} (hnum : sent.map Arrival.number = List.range sent.length)
    {pre post : List Arrival} {a : Arrival} (hsplit : sent = pre ++ a :: post) :
    a.number = pre.length := by
  have hget := congrArg (·[pre.length]?) hnum
  have hlt : pre.length < sent.length := by
    rw [hsplit]
    simp
  simpa [hsplit, List.getElem?_map, List.getElem?_range] using hget

theorem getLast_of_number {sent : List Arrival}
    (hnum : sent.map Arrival.number = List.range sent.length) {a : Arrival} (hmem : a ∈ sent)
    (ha : sent.length = a.number + 1) : sent.getLast? = some a := by
  obtain ⟨pre, post, hsplit⟩ := List.append_of_mem hmem
  have hpre := number_eq hnum hsplit
  have hlen : sent.length = pre.length + (post.length + 1) := by
    rw [hsplit]
    simp
  obtain rfl : post = [] := List.length_eq_zero_iff.mp (by omega)
  rw [hsplit, List.getLast?_concat]

theorem ControlTrigger.Moves.step_ok {w : World} (h : w.Ok) {t' : ControlTrigger}
    (hm : w.trigger.Moves w.now t')
    {future : Option Await} (hfuture : ∀ a, future = some a → t'.Stands a) {said : List Said}
    (hcount : said.countP Said.isEdge = t'.toggles) (halt : Lawful Alternates said)
    (hpressed : t'.pressed = decide (said.getLast? = some (.edge .press))) :
    World.Ok { w with trigger := t', future, said } where
  sound := hm.sound
  future := hfuture
  taken := by
    rw [hm.arrivals]
    exact h.taken
  numbered := h.numbered
  last := hm.last.trans h.last
  count := hcount
  alternates := halt
  pressed := hpressed

theorem poll_ok {w : World} (h : w.Ok) : (w.step .poll).Ok := by
  have hkeeps := loop_keeps w.now w.trigger h.sound
  rw [← poll_eq_loop h.future] at hkeeps
  rw [World.step]
  cases hpoll : w.trigger.poll w.now w.future with
  | ready e t' =>
    rw [hpoll] at hkeeps
    obtain ⟨hm, hpressed, he, htoggles⟩ := hkeeps
    refine hm.step_ok h (by simp) ?_ ?_ ?_
    · rw [List.countP_append, h.count, htoggles]
      rfl
    · rw [History.lawful_concat]
      exact ⟨h.alternates, he.trans h.nextEdge_eq⟩
    · rw [List.getLast?_concat, hpressed, he, nextEdge]
      cases w.trigger.pressed <;> rfl
  | pending a t' =>
    rw [hpoll] at hkeeps
    obtain ⟨hm, hpressed, htoggles, hstands, -⟩ := hkeeps
    refine hm.step_ok h ?_ ?_ h.alternates ?_
    · intro b hb
      obtain rfl := Option.some.inj hb
      exact hstands
    · rw [htoggles]
      exact h.count
    · rw [hpressed]
      exact h.pressed

theorem tick_ok {w : World} (h : w.Ok) (elapsed : ℕ) : (w.step (.tick elapsed)).Ok where
  sound :=
    { quiet := h.sound.quiet
      alone := h.sound.alone
      lawful := h.sound.lawful
      paired := h.sound.paired
      stream := h.sound.stream
      window := by
        intro x hx hquiet
        obtain ⟨hdeadline, hhead⟩ := h.sound.window x hx hquiet
        refine ⟨fun hnil => ?_, hhead⟩
        have := hdeadline hnil
        show x.time + REPEAT_FOLLOW ≤ w.now + elapsed
        omega }
  future := h.future
  taken := h.taken
  numbered := h.numbered
  last := h.last
  count := h.count
  alternates := h.alternates
  pressed := h.pressed

/-- A poke is not close to a press that was taken for one because nothing followed it in time. -/
theorem poke_sound {w : World} (h : w.Ok) : (w.step .poke).trigger.Sound w.now := by
  show (w.trigger.poke w.now w.sent.length).2.Sound w.now
  unfold poke
  refine ⟨h.sound.quiet, h.sound.alone, h.sound.lawful, h.sound.paired, h.sound.stream, ?_⟩
  intro x hx hquiet
  obtain ⟨hdeadline, hhead⟩ := h.sound.window x hx hquiet
  dsimp only
  split
  case isFalse => exact ⟨hdeadline, hhead⟩
  case isTrue =>
    refine ⟨by simp [waiting], ?_⟩
    intro y hy hnumber
    cases hw : w.trigger.waiting with
    | cons a rest =>
      apply hhead y _ hnumber
      rw [hw]
      have hsplit : w.trigger.candidate.toList ++ w.trigger.later.toList ++ w.trigger.rx
          = a :: rest := hw
      rw [waiting] at hy
      dsimp only at hy
      rw [← List.append_assoc, hsplit] at hy
      exact hy
    | nil =>
      -- nothing was waiting, so that this is the poke after `x`, if it is numbered so
      have hnil : w.trigger.candidate.toList ++ w.trigger.later.toList ++ w.trigger.rx = [] := hw
      rw [waiting] at hy
      dsimp only at hy
      rw [← List.append_assoc, hnil] at hy
      obtain rfl := Option.some.inj hy
      have hmem : x ∈ w.sent := by
        apply h.taken.subset
        apply List.mem_append_left
        exact List.mem_map_of_mem (List.mem_of_getLast? hx)
      have hlast := getLast_of_number h.numbered hmem hnumber
      show (w.trigger.last.map (w.now - ·)).any (· < REPEAT_FOLLOW) = false
      rw [h.last, hlast]
      have := hdeadline hw
      show decide (w.now - x.time < REPEAT_FOLLOW) = false
      exact decide_eq_false (by omega)

theorem poke_ok {w : World} (h : w.Ok) : (w.step .poke).Ok where
  sound := poke_sound h
  future := h.future
  taken := by
    show (w.trigger.decided.map Prod.fst ++ (w.trigger.poke w.now w.sent.length).2.waiting).Sublist
      (w.sent ++ [_])
    unfold poke
    dsimp only
    split
    · have hwaiting : ∀ a, w.trigger.candidate.toList ++ w.trigger.later.toList
          ++ (w.trigger.rx ++ [a]) = w.trigger.waiting ++ [a] := by
        intro a
        rw [waiting, List.append_assoc _ w.trigger.rx]
      rw [waiting]
      dsimp only
      rw [hwaiting, ← List.append_assoc]
      exact h.taken.append (List.Sublist.refl _)
    · exact h.taken.trans (List.sublist_append_left _ _)
  numbered := by
    show (w.sent ++ [_]).map Arrival.number = List.range (w.sent ++ [_]).length
    rw [List.map_append, h.numbered, List.length_append, List.length_singleton, List.range_succ]
    rfl
  last := by
    show some w.now = (w.sent ++ [_]).getLast?.map Arrival.time
    rw [List.getLast?_concat]
    rfl
  count := h.count
  alternates := h.alternates
  pressed := h.pressed

theorem cancel_ok {w : World} (h : w.Ok) : (w.step .cancel).Ok :=
  { h with future := by simp [World.step] }

theorem discard_sound {now : ℕ} {t : ControlTrigger} (h : t.Sound now) :
    t.discardPending.Sound now where
  quiet := h.quiet
  alone := by simp [discardPending]
  lawful := by
    apply h.lawful.append
    intro done e rest hsplit
    have hfate : ∀ e' ∈ done ++ e :: rest, e'.2 = Fate.discarded := by
      rw [← hsplit]
      simp
    have he : e.2 = .discarded := hfate e (by simp)
    obtain ⟨a, fate⟩ := e
    obtain rfl : fate = .discarded := he
    cases done with
    | nil =>
      obtain ⟨a', waiting', hw, ha, -⟩ := List.map_eq_cons_iff.mp hsplit
      obtain rfl : a' = a := (Prod.mk.inj ha).1
      rw [List.append_nil]
      exact allowed_head h hw (by simp)
    | cons e' done =>
      intro x fate hlast
      have hmem : (x, fate) ∈ e' :: done := by
        rw [List.getLast?_append_of_ne_nil _ (by simp)] at hlast
        exact List.mem_of_getLast? hlast
      have hx : fate = .discarded := hfate (x, fate) (List.mem_append_left _ hmem)
      rw [hx]
      exact ⟨by simp, by simp⟩
  paired := h.paired.append (paired_of_no_repeat (by simp))
  stream := by
    intro x hx
    refine ⟨fun _ => ?_, by simp [discardPending]⟩
    cases hw : t.waiting with
    | nil =>
      have hc : t.candidate = none := by
        cases hc : t.candidate with
        | none => rfl
        | some c => simp [waiting, hc] at hw
      apply (h.stream x ?_).1 hc
      simpa [discardPending, hw] using hx
    | cons a rest =>
      have hmem := List.mem_of_getLast? hx
      rw [discardPending, hw] at hx
      dsimp only at hx
      rw [List.getLast?_append_of_ne_nil _ (by simp)] at hx
      have := List.mem_of_getLast? hx
      simp at this
  window := by
    intro x hx hquiet
    refine ⟨fun _ => ?_, by simp [discardPending, waiting]⟩
    cases hw : t.waiting with
    | nil =>
      apply (h.window x ?_ hquiet).1 hw
      simpa [discardPending, hw] using hx
    | cons a rest =>
      rw [discardPending, hw] at hx
      dsimp only at hx
      rw [List.getLast?_append_of_ne_nil _ (by simp)] at hx
      have := List.mem_of_getLast? hx
      simp at this

theorem discard_arrivals (t : ControlTrigger) : t.discardPending.arrivals = t.arrivals := by
  unfold ControlTrigger.arrivals discardPending
  simp [waiting, Function.comp_def]

theorem discard_toggles (t : ControlTrigger) : t.discardPending.toggles = t.toggles := by
  unfold toggles discardPending
  rw [List.countP_append, Nat.add_eq_left, List.countP_eq_zero]
  simp

theorem discard_ok {w : World} (h : w.Ok) : (w.step .discardPending).Ok := by
  have hm : w.trigger.Moves w.now w.trigger.discardPending :=
    ⟨discard_sound h.sound, discard_arrivals _, rfl⟩
  refine hm.step_ok h (by simp) ?_ h.alternates h.pressed
  rw [discard_toggles]
  exact h.count

theorem resync_ok {w : World} (h : w.Ok) : (w.step .resync).Ok := by
  have hm : w.trigger.Moves w.now w.trigger.resync := by
    refine ⟨?_, rfl, rfl⟩
    exact ⟨h.sound.quiet, h.sound.alone, h.sound.lawful, h.sound.paired, h.sound.stream,
      h.sound.window⟩
  refine hm.step_ok h (by simp) ?_ ?_ ?_
  · rw [List.countP_append, h.count]
    rfl
  · rw [History.lawful_concat]
    exact ⟨h.alternates, trivial⟩
  · rw [List.getLast?_concat]
    rfl

theorem step_ok {w : World} (h : w.Ok) (event : Event) : (w.step event).Ok := by
  cases event with
  | tick elapsed => exact tick_ok h elapsed
  | poke => exact poke_ok h
  | poll => exact poll_ok h
  | cancel => exact cancel_ok h
  | discardPending => exact discard_ok h
  | resync => exact resync_ok h

theorem run_ok (events : List Event) : ∀ {w : World}, w.Ok → (w.run events).Ok := by
  induction events with
  | nil => exact fun h => h
  | cons event events ih => exact fun h => ih (step_ok h event)

end Shortcut

end Desktop

end Myna
