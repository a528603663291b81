import Myna.Desktop.ControlTrigger
import Myna.Lib.History

/-!
# Myna — what a turn of the control trigger decides

Every poke the channel took is decided once, in order: it toggled, it was a repeat, or it was
discarded. A turn of the loop keeps what is still undecided in the trigger, so that a `next_edge`
dropped at an await is resumed by the next one.

* **`Allowed`**, **`Paired`** — the laws of what was decided;
* **`ControlTrigger.Sound`** — what the trigger's fields say of the pokes decided last;
* **`turn_keeps`**, **`loop_keeps`** — a turn decides pokes and keeps that, and so does a poll;
* **`poll_eq_loop`** — a `next_edge` at an await goes on as a new one would.
-/

namespace Myna

namespace Desktop

namespace Shortcut

open History (Lawful)

theorem Arrival.within_mono {a : Arrival} {w w' : ℕ} (hle : w ≤ w') (h : a.within w = true) :
    a.within w' = true := by
  unfold within at *
  cases hgap : a.gap with
  | none =>
    rw [hgap] at h
    cases h
  | some gap =>
    rw [hgap] at h
    have hlt : gap < w := of_decide_eq_true h
    exact decide_eq_true (by omega : gap < w')

/-- A poke within `REPEAT_FOLLOW` of the one before is within `REPEAT_QUIET` of it. -/
theorem Arrival.within_quiet {a : Arrival} (h : a.within REPEAT_FOLLOW = true) :
    a.within REPEAT_QUIET = true :=
  Arrival.within_mono (by decide) h

/-! ## The laws of what was decided -/

/-- A poke that came closely after a press that was only taken for one, or after a repeat. -/
def Allowed (past : List (Arrival × Fate)) (e : Arrival × Fate) : Prop :=
  ∀ x fate, past.getLast? = some (x, fate) →
    (fate = .toggled → x.within REPEAT_QUIET = true → e.1.number = x.number + 1 →
      e.1.within REPEAT_FOLLOW = false) ∧
    (fate = .repeated → e.2 = .toggled → e.1.within REPEAT_FOLLOW = false)

/-- A repeat came within the quiet time, and closely after the poke before it or with one closely
after it, a repeat too. -/
def Paired (decided : List (Arrival × Fate)) : Prop :=
  ∀ past x later, decided = past ++ (x, .repeated) :: later →
    x.within REPEAT_QUIET = true ∧ (x.within REPEAT_FOLLOW = true ∨
      ∃ y rest, later = (y, .repeated) :: rest ∧ y.within REPEAT_FOLLOW = true)

theorem Paired.append {decided more : List (Arrival × Fate)} (h : Paired decided)
    (hmore : Paired more) : Paired (decided ++ more) := by
  intro past x later hsplit
  rcases List.append_eq_append_iff.mp hsplit with ⟨done, -, hrest⟩ | ⟨rest, hl, hrest⟩
  · exact hmore done x later hrest
  · cases rest with
    | nil => exact hmore [] x later hrest.symm
    | cons e rest =>
      obtain ⟨rfl, hlater⟩ := List.cons.inj hrest
      obtain ⟨hquiet, hclose⟩ := h past x rest hl
      refine ⟨hquiet, hclose.imp_right ?_⟩
      rintro ⟨y, rest', rfl, hy⟩
      exact ⟨y, rest' ++ more, hlater, hy⟩

theorem paired_of_no_repeat {decided : List (Arrival × Fate)}
    (h : ∀ e ∈ decided, e.2 ≠ .repeated) : Paired decided := by
  intro past x later hsplit
  exact absurd rfl (h (x, .repeated) (by rw [hsplit]; simp))

theorem paired_singleton {a : Arrival} {fate : Fate}
    (h : fate = .repeated → a.within REPEAT_FOLLOW = true) : Paired [(a, fate)] := by
  intro past x later hsplit
  have hmem : (x, Fate.repeated) ∈ [(a, fate)] := by
    rw [hsplit]
    simp
  obtain ⟨rfl, rfl⟩ := Prod.mk.inj (List.mem_singleton.mp hmem)
  exact ⟨Arrival.within_quiet (h rfl), .inl (h rfl)⟩

/-- A candidate that was followed closely, and what followed it. -/
theorem paired_pair {c next : Arrival} (hc : c.within REPEAT_QUIET = true)
    (hnext : next.within REPEAT_FOLLOW = true) : Paired [(c, .repeated), (next, .repeated)] := by
  intro past x later hsplit
  cases past with
  | nil =>
    obtain ⟨he, rfl⟩ := List.cons.inj hsplit
    obtain ⟨rfl, -⟩ := Prod.mk.inj he
    exact ⟨hc, .inr ⟨next, [], rfl, hnext⟩⟩
  | cons e past =>
    obtain ⟨-, hrest⟩ := List.cons.inj hsplit
    exact paired_singleton (fun _ => hnext) past x later hrest

/-! ## What a turn keeps -/

namespace ControlTrigger

/-- The pokes the channel took, in order. -/
def arrivals (t : ControlTrigger) : List Arrival := t.decided.map Prod.fst ++ t.waiting

/-- How many pokes toggled. -/
def toggles (t : ControlTrigger) : ℕ := t.decided.countP fun e => e.2 = .toggled

/-- The edge that a toggle answers. -/
def nextEdge (t : ControlTrigger) : TriggerEdge := if t.pressed then .release else .press

structure Sound (now : ℕ) (t : ControlTrigger) : Prop where
  quiet : t.quiet = REPEAT_QUIET
  alone : ∀ c, t.candidate = some c → t.later = none ∧ c.within REPEAT_QUIET = true
  lawful : Lawful Allowed t.decided
  paired : Paired t.decided
  -- after a repeat the stream is under way, unless a candidate that came later broke it
  stream : ∀ x, t.decided.getLast? = some (x, .repeated) →
    (t.candidate = none → t.streaming = true) ∧
      ∀ c, t.candidate = some c → c.within REPEAT_FOLLOW = false
  -- a poke that was taken for a press was not followed closely, nor can it be any more
  window : ∀ x, t.decided.getLast? = some (x, .toggled) → x.within REPEAT_QUIET = true →
    (t.waiting = [] → x.time + REPEAT_FOLLOW ≤ now) ∧
      ∀ y ∈ t.waiting.head?, y.number = x.number + 1 → y.within REPEAT_FOLLOW = false

/-- Where a `next_edge` that waits left the trigger. -/
def Stands (t : ControlTrigger) : Await → Prop
  | .recv => t.candidate = none ∧ t.later = none
  | .follow c => t.candidate = some c ∧ t.later = none

/-- What one turn, or a poll, does to the trigger. -/
structure Moves (now : ℕ) (t t' : ControlTrigger) : Prop where
  sound : t'.Sound now
  arrivals : t'.arrivals = t.arrivals
  last : t'.last = t.last

end ControlTrigger

open ControlTrigger

def Turn.Keeps (now : ℕ) (t : ControlTrigger) : Turn → Prop
  | .edge e t' => t.Moves now t' ∧ t'.pressed = !t.pressed ∧ e = t.nextEdge ∧
      t'.toggles = t.toggles + 1
  | .again t' => t.Moves now t' ∧ t'.pressed = t.pressed ∧ t'.toggles = t.toggles
  | .wait a t' => t' = t ∧ t.Stands a ∧ t.rx = [] ∧
      ∀ c, t.candidate = some c → now < c.time + REPEAT_FOLLOW

theorem allowed_head {now : ℕ} {t : ControlTrigger} (h : t.Sound now) {a : Arrival}
    {rest : List Arrival} {fate : Fate} (hw : t.waiting = a :: rest)
    (hbreak : fate = .toggled → ∀ x, t.decided.getLast? = some (x, .repeated) →
      a.within REPEAT_FOLLOW = false) : Allowed t.decided (a, fate) := by
  intro x prior hlast
  constructor
  · rintro rfl hquiet hnumber
    exact (h.window x hlast hquiet).2 a (by rw [hw]; rfl) hnumber
  · rintro rfl htoggled
    exact hbreak htoggled x hlast

theorem nextEdge_eq (t : ControlTrigger) :
    (if !t.pressed then TriggerEdge.press else .release) = t.nextEdge := by
  unfold nextEdge
  cases t.pressed <;> rfl

theorem settle_keeps {now : ℕ} {t : ControlTrigger} (h : t.Sound now) {c : Arrival}
    {next : Option Arrival} {rx : List Arrival} (hc : t.candidate = some c)
    (hw : t.waiting = c :: (next.toList ++ rx))
    (hnone : next = none → rx = [] ∧ c.time + REPEAT_FOLLOW ≤ now) :
    Turn.Keeps now t ({ t with later := none, rx := rx }.settle c next) := by
  obtain ⟨-, hquiet⟩ := h.alone c hc
  have hbreak : ∀ x, t.decided.getLast? = some (x, .repeated) →
      c.within REPEAT_FOLLOW = false := fun x hx => (h.stream x hx).2 c hc
  unfold settle
  cases next with
  | some next =>
    dsimp only
    split
    case isTrue hnext =>
      -- the candidate and what follows it are repeats
      refine ⟨⟨?_, ?_, rfl⟩, rfl, ?_⟩
      · constructor
        · exact h.quiet
        · intro d hd
          cases hd
        · show Lawful Allowed ((t.decided ++ [(c, Fate.repeated)]) ++ [(next, Fate.repeated)])
          rw [History.lawful_concat, History.lawful_concat]
          refine ⟨⟨h.lawful, allowed_head h hw ?_⟩, ?_⟩
          · intro hfate
            cases hfate
          · intro x prior hlast
            obtain ⟨rfl, rfl⟩ := Prod.mk.inj (by simpa using hlast : (c, Fate.repeated) = _)
            exact ⟨by simp, by simp⟩
        · show Paired ((t.decided ++ [(c, Fate.repeated)]) ++ [(next, Fate.repeated)])
          rw [List.append_assoc]
          exact h.paired.append (paired_pair hquiet hnext)
        · exact fun _ _ => ⟨fun _ => rfl, by simp [record]⟩
        · intro x hx
          simp [record] at hx
      · unfold ControlTrigger.arrivals
        rw [hw]
        simp [record, waiting]
      · simp [toggles, record]
    case isFalse hnext =>
      have hnext : next.within REPEAT_FOLLOW = false := Bool.eq_false_iff.mpr hnext
      refine ⟨⟨?_, ?_, rfl⟩, rfl, nextEdge_eq t, ?_⟩
      · constructor
        · exact h.quiet
        · intro d hd
          cases hd
        · show Lawful Allowed (t.decided ++ [(c, Fate.toggled)])
          rw [History.lawful_concat]
          exact ⟨h.lawful, allowed_head h hw fun _ => hbreak⟩
        · exact h.paired.append (paired_of_no_repeat (by simp))
        · intro x hx
          simp [record] at hx
        · intro x hx _
          refine ⟨by simp [waiting, record], ?_⟩
          intro y hy _
          obtain rfl : next = y := by simpa [waiting, record] using hy
          exact hnext
      · unfold ControlTrigger.arrivals
        rw [hw]
        simp [record, waiting]
      · simp [toggles, record]
  | none =>
    obtain ⟨rfl, hdeadline⟩ := hnone rfl
    refine ⟨⟨?_, ?_, rfl⟩, rfl, nextEdge_eq t, ?_⟩
    · constructor
      · exact h.quiet
      · intro d hd
        cases hd
      · show Lawful Allowed (t.decided ++ [(c, Fate.toggled)])
        rw [History.lawful_concat]
        exact ⟨h.lawful, allowed_head h hw fun _ => hbreak⟩
      · exact h.paired.append (paired_of_no_repeat (by simp))
      · intro x hx
        simp [record] at hx
      · intro x hx _
        obtain rfl : c = x := by simpa [record] using hx
        exact ⟨fun _ => hdeadline, by simp [waiting, record]⟩
    · unfold ControlTrigger.arrivals
      rw [hw]
      simp [record, waiting]
    · simp [toggles, record]

theorem take_keeps {now : ℕ} {t : ControlTrigger} (h : t.Sound now) {a : Arrival}
    {rx : List Arrival} (hc : t.candidate = none) (hw : t.waiting = a :: rx) :
    Turn.Keeps now t ({ t with later := none, rx := rx }.take a) := by
  unfold take
  split
  case isTrue hfar =>
    have hfar : a.within REPEAT_QUIET = false := by
      rw [← h.quiet]
      simpa using hfar
    have hapart : a.within REPEAT_FOLLOW = false := by
      by_contra hclose
      rw [Arrival.within_quiet (by simpa using hclose)] at hfar
      cases hfar
    refine ⟨⟨?_, ?_, rfl⟩, rfl, nextEdge_eq t, ?_⟩
    · constructor
      · exact h.quiet
      · intro d hd
        rw [show _ = t.candidate from rfl, hc] at hd
        cases hd
      · show Lawful Allowed (t.decided ++ [(a, Fate.toggled)])
        rw [History.lawful_concat]
        exact ⟨h.lawful, allowed_head h hw fun _ _ _ => hapart⟩
      · exact h.paired.append (paired_of_no_repeat (by simp))
      · intro x hx
        simp [record] at hx
      · intro x hx hquiet
        obtain rfl : a = x := by simpa [record] using hx
        rw [hfar] at hquiet
        cases hquiet
    · unfold ControlTrigger.arrivals
      rw [hw]
      simp [record, waiting, hc]
    · simp [toggles, record]
  case isFalse hnear =>
    have hnear : a.within REPEAT_QUIET = true := by
      rw [← h.quiet]
      simpa using hnear
    split
    case isTrue hstream =>
      obtain ⟨hstreaming, hclose⟩ := Bool.and_eq_true_iff.mp hstream
      refine ⟨⟨?_, ?_, rfl⟩, rfl, ?_⟩
      · constructor
        · exact h.quiet
        · intro d hd
          rw [show _ = t.candidate from rfl, hc] at hd
          cases hd
        · show Lawful Allowed (t.decided ++ [(a, Fate.repeated)])
          rw [History.lawful_concat]
          exact ⟨h.lawful, allowed_head h hw (by simp)⟩
        · exact h.paired.append (paired_singleton fun _ => hclose)
        · intro x _
          exact ⟨fun _ => hstreaming, by simp [record, hc]⟩
        · intro x hx
          simp [record] at hx
      · unfold ControlTrigger.arrivals
        rw [hw]
        simp [record, waiting, hc]
      · simp [toggles, record]
    case isFalse hstream =>
      -- the poke may be a repeat: it is kept until that is known
      have hsame : ({ t with streaming := false, candidate := some a, later := none, rx } :
          ControlTrigger).waiting = t.waiting := by
        rw [hw]
        rfl
      refine ⟨⟨?_, ?_, rfl⟩, rfl, rfl⟩
      · constructor
        · exact h.quiet
        · intro d hd
          obtain rfl := Option.some.inj hd
          exact ⟨rfl, hnear⟩
        · exact h.lawful
        · exact h.paired
        · intro x hx
          refine ⟨by simp, ?_⟩
          intro d hd
          obtain rfl := Option.some.inj hd
          have hstreaming := (h.stream x hx).1 hc
          have hstream : ¬ (t.streaming && a.within REPEAT_FOLLOW) = true := hstream
          rw [hstreaming, Bool.true_and] at hstream
          exact Bool.eq_false_iff.mpr hstream
        · intro x hx hquiet
          rw [hsame]
          exact h.window x hx hquiet
      · show t.decided.map Prod.fst ++ _ = _
        rw [hsame]
        rfl

theorem awaitFollow_keeps {now : ℕ} {t : ControlTrigger} (h : t.Sound now) {c : Arrival}
    (hc : t.candidate = some c) : (t.awaitFollow now c).Keeps now t := by
  obtain ⟨hlater, -⟩ := h.alone c hc
  unfold awaitFollow
  split
  case h_1 next rx hrx =>
    have hw : t.waiting = c :: ((some next).toList ++ rx) := by
      simp [waiting, hc, hlater, hrx]
    have hkeeps := @settle_keeps _ _ h _ (some next) _ hc hw (by simp)
    rw [← hlater] at hkeeps
    exact hkeeps
  case h_2 hrx =>
    split
    case isTrue hdeadline =>
      have hw : t.waiting = c :: ((none : Option Arrival).toList ++ []) := by
        simp [waiting, hc, hlater, hrx]
      have hself : ({ t with later := none, rx := [] } : ControlTrigger) = t := by
        rw [← hlater, ← hrx]
      have hkeeps := @settle_keeps _ _ h _ none _ hc hw fun _ => ⟨rfl, hdeadline⟩
      rw [hself] at hkeeps
      exact hkeeps
    case isFalse hdeadline =>
      refine ⟨rfl, ⟨hc, hlater⟩, hrx, ?_⟩
      intro d hd
      rw [hc] at hd
      obtain rfl := Option.some.inj hd
      omega

theorem awaitRecv_keeps {now : ℕ} {t : ControlTrigger} (h : t.Sound now)
    (hc : t.candidate = none) (hlater : t.later = none) : t.awaitRecv.Keeps now t := by
  unfold awaitRecv
  split
  case h_1 a rx hrx =>
    have hkeeps := take_keeps h hc (by simp [waiting, hc, hlater, hrx] : t.waiting = a :: rx)
    rw [← hlater] at hkeeps
    exact hkeeps
  case h_2 hrx => exact ⟨rfl, ⟨hc, hlater⟩, hrx, by simp [hc]⟩

theorem turn_keeps {now : ℕ} {t : ControlTrigger} (h : t.Sound now) :
    (turn now t).Keeps now t := by
  unfold turn
  split
  case h_1 c hc =>
    rw [(h.alone c hc).1]
    exact awaitFollow_keeps h hc
  case h_2 hc =>
    split
    case h_1 a hlater =>
      exact take_keeps h hc (by simp [waiting, hc, hlater] : t.waiting = a :: t.rx)
    case h_2 hlater => exact awaitRecv_keeps h hc hlater

/-! ## Polls -/

def Polled.Keeps (now : ℕ) (t : ControlTrigger) : Polled → Prop
  | .ready e t' => t.Moves now t' ∧ t'.pressed = !t.pressed ∧ e = t.nextEdge ∧
      t'.toggles = t.toggles + 1
  | .pending a t' => t.Moves now t' ∧ t'.pressed = t.pressed ∧ t'.toggles = t.toggles ∧
      t'.Stands a ∧ t'.rx = [] ∧ ∀ c, t'.candidate = some c → now < c.time + REPEAT_FOLLOW

theorem Polled.Keeps.after {now : ℕ} {t t' : ControlTrigger} {p : Polled}
    (hmoves : t.Moves now t') (hpressed : t'.pressed = t.pressed)
    (htoggles : t'.toggles = t.toggles) (h : p.Keeps now t') : p.Keeps now t := by
  cases p with
  | ready e t'' =>
    obtain ⟨hm, hp, he, ht⟩ := h
    refine ⟨⟨hm.sound, hm.arrivals.trans hmoves.arrivals, hm.last.trans hmoves.last⟩, ?_, ?_, ?_⟩
    · rw [hp, hpressed]
    · rw [he, nextEdge, hpressed]
      rfl
    · rw [ht, htoggles]
  | pending a t'' =>
    obtain ⟨hm, hp, ht, hrest⟩ := h
    exact ⟨⟨hm.sound, hm.arrivals.trans hmoves.arrivals, hm.last.trans hmoves.last⟩,
      hp.trans hpressed, ht.trans htoggles, hrest⟩

theorem loop_keeps (now : ℕ) (t : ControlTrigger) (h : t.Sound now) :
    (loop now t).Keeps now t := by
  induction t using loop.induct now with
  | case1 t e t' hturn =>
    have hkeeps := turn_keeps h
    rw [loop, hturn]
    rw [hturn] at hkeeps
    exact hkeeps
  | case2 t a t' hturn =>
    have hkeeps := turn_keeps h
    rw [hturn] at hkeeps
    obtain ⟨rfl, hrest⟩ := hkeeps
    rw [loop, hturn]
    exact ⟨⟨h, rfl, rfl⟩, rfl, rfl, hrest⟩
  | case3 t t' hturn ih =>
    have hkeeps := turn_keeps h
    rw [hturn] at hkeeps
    obtain ⟨hmoves, hpressed, htoggles⟩ := hkeeps
    rw [loop, hturn]
    exact (ih hmoves.sound).after hmoves hpressed htoggles

/-- A `next_edge` at an await goes on as a new one would. -/
theorem poll_eq_loop {now : ℕ} {future : Option Await} {t : ControlTrigger}
    (h : ∀ a, future = some a → t.Stands a) : poll now future t = loop now t := by
  have hresumed : t.resume now future = turn now t := by
    cases future with
    | none => rfl
    | some a =>
      cases a with
      | recv =>
        obtain ⟨hc, hlater⟩ := h _ rfl
        simp [resume, turn, hc, hlater]
      | follow c =>
        obtain ⟨hc, hlater⟩ := h _ rfl
        simp [resume, turn, hc, hlater]
  rw [poll, hresumed, loop]
  cases turn now t <;> rfl

end Shortcut

end Desktop

end Myna
