import Myna.Desktop.ControlTriggerRuns

/-!
# Myna — one toggle for a press and its repeats

What the laws of a run say of pokes that come one after the other: a press toggles, the repeats of a
held key do not, and what was not discarded is decided sooner or later.

* **`burst_toggles_once`** — a press and its repeats;
* **`press_kept`** — a press is not taken for a repeat;
* **`drained`** — polls decide what waits;
* **`toggles_survive`** — alternation, bursts, cancellation and discarding in every run.
-/

namespace Myna

namespace Desktop

namespace Shortcut

open History (Lawful)
open ControlTrigger

/-! ## Neighbours -/

/-- Neighbours in a list without duplicates are neighbours in a sublist that has both. -/
theorem adjacent_of_sublist {α : Type*} {l sub : List α} (h : sub.Sublist l) (hnodup : l.Nodup)
    {a b : α} (ha : a ∈ sub) (hb : b ∈ sub) :
    ∀ {pre post : List α}, l = pre ++ a :: b :: post → ∃ l1 l2, sub = l1 ++ a :: b :: l2 := by
  induction h with
  | slnil => cases ha
  | cons x hsub ih =>
    intro pre post hl
    obtain ⟨hx, hnodup⟩ := List.nodup_cons.mp hnodup
    cases pre with
    | nil =>
      -- the element left out is not `a`, which is in the sublist
      obtain ⟨rfl, -⟩ := List.cons.inj hl
      exact absurd (hsub.subset ha) hx
    | cons y pre => exact ih hnodup ha hb (List.cons.inj hl).2
  | cons_cons x hsub ih =>
    intro pre post hl
    obtain ⟨hx, hnodup⟩ := List.nodup_cons.mp hnodup
    cases pre with
    | nil =>
      obtain ⟨rfl, rfl⟩ := List.cons.inj hl
      have hne : b ≠ x := by
        rintro rfl
        exact hx (List.mem_cons_self)
      have hb := (List.mem_cons.mp hb).resolve_left hne
      cases hsub with
      | cons _ hsub => exact absurd (hsub.subset hb) (List.nodup_cons.mp hnodup).1
      | cons_cons _ hsub => exact ⟨[], _, rfl⟩
    | cons y pre =>
      obtain ⟨rfl, hrest⟩ := List.cons.inj hl
      have hax : a ≠ x := by
        rintro rfl
        exact hx (by rw [hrest]; simp)
      have hbx : b ≠ x := by
        rintro rfl
        exact hx (by rw [hrest]; simp)
      obtain ⟨l1, l2, rfl⟩ := ih hnodup ((List.mem_cons.mp ha).resolve_left hax)
        ((List.mem_cons.mp hb).resolve_left hbx) hrest
      exact ⟨x :: l1, l2, rfl⟩

/-! ## Bursts -/

section

variable {w : World}

/-- What became of a poke. -/
def World.Became (w : World) (a : Arrival) (fate : Fate) : Prop := (a, fate) ∈ w.trigger.decided

theorem sent_nodup (h : w.Ok) : w.sent.Nodup := by
  apply List.Nodup.of_map Arrival.number
  rw [h.numbered]
  exact List.nodup_range

theorem decided_sublist (h : w.Ok) : (w.trigger.decided.map Prod.fst).Sublist w.sent :=
  (List.sublist_append_left _ _).trans h.taken

/-- A poke has one fate. -/
theorem became_unique (h : w.Ok) {a : Arrival} {f g : Fate} (hf : w.Became a f)
    (hg : w.Became a g) : f = g := by
  have hnodup := (decided_sublist h).nodup (sent_nodup h)
  have := List.inj_on_of_nodup_map hnodup hf hg rfl
  exact (Prod.mk.inj this).2

/-- Pokes sent one after the other are decided one after the other. -/
theorem decided_adjacent (h : w.Ok) {a b : Arrival} {f g : Fate} {pre post : List Arrival}
    (hsent : w.sent = pre ++ a :: b :: post) (ha : w.Became a f) (hb : w.Became b g) :
    ∃ past later, w.trigger.decided = past ++ (a, f) :: (b, g) :: later ∧
      b.number = a.number + 1 := by
  obtain ⟨l1, l2, hsplit⟩ := adjacent_of_sublist (decided_sublist h) (sent_nodup h)
    (List.mem_map_of_mem ha) (List.mem_map_of_mem hb) hsent
  obtain ⟨past, rest, hdecided, -, hrest⟩ := List.map_eq_append_iff.mp hsplit
  obtain ⟨⟨a', f'⟩, rest', rfl, rfl, hrest'⟩ := List.map_eq_cons_iff.mp hrest
  obtain ⟨⟨b', g'⟩, later, rfl, rfl, -⟩ := List.map_eq_cons_iff.mp hrest'
  obtain rfl : f' = f := became_unique h (by rw [World.Became, hdecided]; simp) ha
  obtain rfl : g' = g := became_unique h (by rw [World.Became, hdecided]; simp) hb
  refine ⟨past, later, hdecided, ?_⟩
  rw [number_eq h.numbered hsent,
    number_eq h.numbered (hsent.trans (List.append_cons pre a' (b' :: post)))]
  simp

/-- What closely follows a poke says what became of both. -/
theorem close_neighbours (h : w.Ok) {a b : Arrival} {f g : Fate} {pre post : List Arrival}
    (hsent : w.sent = pre ++ a :: b :: post) (ha : w.Became a f) (hb : w.Became b g)
    (hclose : b.within REPEAT_FOLLOW = true) :
    (f = .toggled → a.within REPEAT_QUIET = false) ∧ (f = .repeated → g ≠ .toggled) := by
  obtain ⟨past, later, hdecided, hnumber⟩ := decided_adjacent h hsent ha hb
  have hlaw := h.sound.lawful (past ++ [(a, f)]) (b, g) later (by rw [hdecided]; simp)
  obtain ⟨hpress, hrepeat⟩ := hlaw a f List.getLast?_concat
  constructor
  · intro hf
    by_contra hquiet
    rw [hpress hf (by simpa using hquiet) hnumber] at hclose
    cases hclose
  · intro hf hg
    rw [hrepeat hf hg] at hclose
    cases hclose

theorem not_toggled {a : Arrival} {f : Fate} (h : w.Became a f) (hnot : f ≠ .discarded)
    (htoggled : f ≠ .toggled) : w.Became a .repeated := by
  cases f with
  | toggled => exact absurd rfl htoggled
  | discarded => exact absurd rfl hnot
  | repeated => exact h

/-- Pokes that each come closely after the one before are repeats, the first too if it came within
the quiet time. -/
theorem all_repeated (h : w.Ok) : ∀ {a b : Arrival} {rest pre post : List Arrival},
    w.sent = pre ++ a :: b :: rest ++ post → a.within REPEAT_QUIET = true →
      (∀ c ∈ b :: rest, c.within REPEAT_FOLLOW = true) →
      (∀ c ∈ a :: b :: rest, ∃ fate, w.Became c fate ∧ fate ≠ .discarded) →
      ∀ c ∈ a :: b :: rest, w.Became c .repeated
  | a, b, rest, pre, post, hsent, hquiet, hclose, hdecided => by
    obtain ⟨f, ha, hf⟩ := hdecided a (by simp)
    obtain ⟨g, hb, hg⟩ := hdecided b (by simp)
    have hsent' : w.sent = pre ++ a :: b :: (rest ++ post) := by
      rw [hsent]
      simp
    obtain ⟨hpress, hrepeat⟩ := close_neighbours h hsent' ha hb (hclose b (by simp))
    have harep : w.Became a .repeated := by
      apply not_toggled ha hf
      intro htoggled
      rw [hpress htoggled] at hquiet
      cases hquiet
    have hfrep := became_unique h ha harep
    intro c hc
    rcases List.mem_cons.mp hc with rfl | hc
    · exact harep
    cases rest with
    | nil =>
      obtain rfl := List.mem_singleton.mp hc
      exact not_toggled hb hg (hrepeat hfrep)
    | cons d rest =>
      have hsent'' : w.sent = (pre ++ [a]) ++ b :: d :: rest ++ post := by
        rw [hsent]
        simp
      exact all_repeated h hsent'' (Arrival.within_quiet (hclose b (by simp)))
        (fun e he => hclose e (List.mem_cons_of_mem _ he))
        (fun e he => hdecided e (List.mem_cons_of_mem _ he)) c hc

/-- A press: it came after a quiet time, or it neither follows nor is followed closely. -/
def IsPress (a : Arrival) (next : Option Arrival) : Prop :=
  a.within REPEAT_QUIET = false ∨
    a.within REPEAT_FOLLOW = false ∧ ∀ b ∈ next, b.within REPEAT_FOLLOW = false

/-- A press is not taken for a repeat. -/
theorem press_not_repeated (h : w.Ok) {a : Arrival} {before after : List Arrival}
    (harrivals : w.trigger.arrivals = before ++ a :: after) (hpress : IsPress a after.head?) :
    ¬ w.Became a .repeated := by
  intro hrep
  obtain ⟨past, later, hdecided⟩ := List.append_of_mem hrep
  have harr : before ++ a :: after
      = past.map Prod.fst ++ a :: (later.map Prod.fst ++ w.trigger.waiting) := by
    rw [← harrivals, ControlTrigger.arrivals, hdecided]
    simp
  have hnodup : (before ++ a :: after).Nodup := by
    rw [← harrivals]
    exact h.taken.nodup (sent_nodup h)
  obtain ⟨rfl, hafter⟩ : before = past.map Prod.fst ∧
      after = later.map Prod.fst ++ w.trigger.waiting := by
    obtain ⟨-, hcons, hdisjoint⟩ := List.nodup_append.mp hnodup
    have hbefore : a ∉ before := fun hmem => hdisjoint a hmem a (by simp) rfl
    have hafter := (List.nodup_cons.mp hcons).1
    obtain ⟨hpast, -, hlater⟩ := (List.append_cons_inj_of_notMem hbefore hafter).mp harr
    exact ⟨hpast, hlater⟩
  obtain ⟨hquiet, hclose⟩ := h.sound.paired past a later hdecided
  rcases hpress with hfar | ⟨hfar, hnext⟩
  · rw [hfar] at hquiet
    cases hquiet
  rcases hclose with hclose | ⟨y, rest, rfl, hy⟩
  · rw [hfar] at hclose
    cases hclose
  · rw [hnext y (by rw [hafter]; rfl)] at hy
    cases hy

/-- A press that the channel took has toggled, unless it was discarded or still waits. -/
theorem press_kept (h : w.Ok) {a : Arrival} {before after : List Arrival}
    (harrivals : w.trigger.arrivals = before ++ a :: after) (hpress : IsPress a after.head?) :
    w.Became a .toggled ∨ w.Became a .discarded ∨ a ∈ w.trigger.waiting := by
  have hmem : a ∈ w.trigger.decided.map Prod.fst ++ w.trigger.waiting := by
    show a ∈ w.trigger.arrivals
    rw [harrivals]
    simp
  rcases List.mem_append.mp hmem with hdecided | hwaiting
  · obtain ⟨⟨a', fate⟩, hfate, rfl⟩ := List.mem_map.mp hdecided
    cases fate with
    | toggled => exact .inl hfate
    | discarded => exact .inr (.inl hfate)
    | repeated => exact absurd hfate (press_not_repeated h harrivals hpress)
  · exact .inr (.inr hwaiting)

/-- **A press and the repeats of the key that is held toggle once.** -/
theorem burst_toggles_once (h : w.Ok) {press first second : Arrival} {rest pre post : List Arrival}
    (hsent : w.sent = pre ++ press :: first :: second :: rest ++ post)
    (hpress : IsPress press (some first)) (hquiet : first.within REPEAT_QUIET = true)
    (hclose : ∀ b ∈ second :: rest, b.within REPEAT_FOLLOW = true)
    (hdecided : ∀ a ∈ press :: first :: second :: rest,
      ∃ fate, w.Became a fate ∧ fate ≠ .discarded) :
    w.Became press .toggled ∧ ∀ a ∈ first :: second :: rest, w.Became a .repeated := by
  constructor
  · obtain ⟨f, hf, hnot⟩ := hdecided press (by simp)
    obtain ⟨g, hg, -⟩ := hdecided first (by simp)
    have hsent' : w.sent = pre ++ press :: first :: (second :: rest ++ post) := by
      rw [hsent]
      simp
    obtain ⟨past, later, hsplit, -⟩ := decided_adjacent h hsent' hf hg
    have harrivals : w.trigger.arrivals
        = past.map Prod.fst ++ press :: (first :: (later.map Prod.fst ++ w.trigger.waiting)) := by
      rw [ControlTrigger.arrivals, hsplit]
      simp
    have hrep := press_not_repeated h harrivals hpress
    cases f with
    | toggled => exact hf
    | discarded => exact absurd rfl hnot
    | repeated => exact absurd hf hrep
  · have hsent' : w.sent = (pre ++ [press]) ++ first :: second :: rest ++ post := by
      rw [hsent]
      simp
    exact all_repeated h hsent' hquiet hclose fun a ha => hdecided a (List.mem_cons_of_mem _ ha)

/-! ## What polls leave waiting -/

/-- After a poll that waits, only a candidate is undecided, and its time is not up. -/
theorem pending_waits (h : w.Ok) {await : Await} (hpending : (w.step .poll).future = some await) :
    ∀ a ∈ (w.step .poll).trigger.waiting, w.now < a.time + REPEAT_FOLLOW := by
  have hkeeps := loop_keeps w.now w.trigger h.sound
  rw [← poll_eq_loop h.future] at hkeeps
  rw [World.step] at hpending ⊢
  cases hpoll : w.trigger.poll w.now w.future with
  | ready e t' =>
    rw [hpoll] at hpending
    cases hpending
  | pending a t' =>
    rw [hpoll] at hkeeps
    obtain ⟨-, -, -, hstands, hrx, htime⟩ := hkeeps
    intro b hb
    have hlater : t'.later = none := by
      cases a with
      | recv => exact hstands.2
      | follow c => exact hstands.2
    have hb : b ∈ t'.candidate.toList := by
      have hb : b ∈ t'.waiting := hb
      simpa [waiting, hlater, hrx] using hb
    exact htime b (Option.mem_toList.mp hb)

theorem poll_progress (h : w.Ok) :
    (∃ await, (w.step .poll).future = some await) ∨
      (w.step .poll).trigger.toggles = w.trigger.toggles + 1 ∧
        (w.step .poll).trigger.arrivals = w.trigger.arrivals := by
  have hkeeps := loop_keeps w.now w.trigger h.sound
  rw [← poll_eq_loop h.future] at hkeeps
  rw [World.step]
  cases hpoll : w.trigger.poll w.now w.future with
  | ready e t' =>
    rw [hpoll] at hkeeps
    exact .inr ⟨hkeeps.2.2.2, hkeeps.1.arrivals⟩
  | pending a t' => exact .inl ⟨a, rfl⟩

theorem poll_now (w : World) : (w.step .poll).now = w.now := by
  rw [World.step]
  cases w.trigger.poll w.now w.future <;> rfl

theorem toggles_le (t : ControlTrigger) : t.toggles ≤ t.arrivals.length := by
  have hle : t.toggles ≤ t.decided.length := List.countP_le_length
  rw [ControlTrigger.arrivals, List.length_append, List.length_map]
  omega

/-- Polls that go on long enough leave only a candidate whose time is not up. -/
theorem drained (h : w.Ok) : ∃ n, ∀ a ∈ ((fun w => w.step .poll)^[n] w).trigger.waiting,
    w.now < a.time + REPEAT_FOLLOW := by
  -- every poll that answers an edge uses up one of the arrivals
  induction hk : w.trigger.arrivals.length - w.trigger.toggles using Nat.strong_induction_on
    generalizing w with
  | _ k ih =>
    rcases poll_progress h with ⟨await, hpending⟩ | ⟨htoggles, harrivals⟩
    · exact ⟨1, pending_waits h hpending⟩
    · have hok := step_ok h .poll
      have hle := toggles_le (w.step .poll).trigger
      have hlt : (w.step .poll).trigger.arrivals.length - (w.step .poll).trigger.toggles < k := by
        rw [harrivals] at hle ⊢
        omega
      obtain ⟨n, hn⟩ := ih _ hlt hok rfl
      refine ⟨n + 1, ?_⟩
      rw [poll_now] at hn
      rw [Function.iterate_succ_apply]
      exact hn

/-! ## What is said next -/

/-- Where no resync comes between, the first edge is the one that comes after what was said. -/
theorem next_edge (events : List Event) (hsync : ∀ e ∈ events, e ≠ .resync) : ∀ {w : World}, w.Ok →
    ∃ more, (w.run events).said = w.said ++ more ∧
      ∀ s ∈ more.head?, s = .edge (edgeAfter w.said.getLast?) := by
  induction events with
  | nil => exact fun _ => ⟨[], by simp [World.run], by simp⟩
  | cons event events ih =>
    intro w h
    obtain ⟨hevent, hsync⟩ := List.forall_mem_cons.mp hsync
    have hok := step_ok h event
    obtain ⟨more, hmore, hhead⟩ := ih hsync hok
    by_cases hsaid : (w.step event).said = w.said
    · rw [hsaid] at hmore hhead
      exact ⟨more, hmore, hhead⟩
    · -- only a poll that answers says something
      cases event with
      | poll =>
        rw [World.step] at hsaid hmore
        have hkeeps := loop_keeps w.now w.trigger h.sound
        rw [← poll_eq_loop h.future] at hkeeps
        change (World.run _ events).said = _ at hmore
        show ∃ more, (World.run (w.step .poll) events).said = _ ∧ _
        rw [World.step]
        cases hpoll : w.trigger.poll w.now w.future with
        | pending a t' =>
          rw [hpoll] at hsaid
          exact absurd rfl hsaid
        | ready e t' =>
          rw [hpoll] at hkeeps hmore
          refine ⟨.edge e :: more, ?_, ?_⟩
          · rw [hmore, List.append_assoc]
            rfl
          · intro s hs
            obtain rfl := Option.some.inj hs
            rw [hkeeps.2.2.1, h.nextEdge_eq]
      | tick | poke | cancel | discardPending => exact absurd rfl hsaid
      | resync => exact absurd rfl hevent

end

/-- **The toggles survive repeats, dropped polls and discards.** -/
theorem toggles_survive (events : List Event) :
    let w := World.run {} events
    (Lawful Alternates w.said ∧ w.said.countP Said.isEdge = w.trigger.toggles) ∧
    (w.trigger.arrivals.Sublist w.sent ∧ (w.trigger.decided.map Prod.fst).Nodup) ∧
    (∀ press first second rest pre post,
      w.sent = pre ++ press :: first :: second :: rest ++ post → IsPress press (some first) →
      first.within REPEAT_QUIET = true → (∀ b ∈ second :: rest, b.within REPEAT_FOLLOW = true) →
      (∀ a ∈ press :: first :: second :: rest, ∃ fate, w.Became a fate ∧ fate ≠ .discarded) →
      w.Became press .toggled ∧ ∀ a ∈ first :: second :: rest, w.Became a .repeated) ∧
    (∀ a before after, w.trigger.arrivals = before ++ a :: after → IsPress a after.head? →
      w.Became a .toggled ∨ w.Became a .discarded ∨ a ∈ w.trigger.waiting) ∧
    ((w.step .cancel).trigger = w.trigger ∧ (w.step .cancel).step .poll = w.step .poll) ∧
    (∃ n, ∀ a ∈ ((fun w => w.step .poll)^[n] w).trigger.waiting,
      w.now < a.time + REPEAT_FOLLOW) ∧
    ((w.step .discardPending).trigger.waiting = [] ∧
      ∀ a ∈ w.trigger.waiting, (w.step .discardPending).Became a .discarded) ∧
    ∀ w' ∈ [w, w.step .discardPending], ∀ more : List Event, (∀ e ∈ more, e ≠ .resync) →
      ∃ said, (w'.run more).said = w.said ++ said ∧
        ∀ s ∈ said.head?, s = .edge (edgeAfter w.said.getLast?) := by
  intro w
  have h : w.Ok := run_ok events init_ok
  refine ⟨⟨h.alternates, h.count⟩, ⟨h.taken, (decided_sublist h).nodup (sent_nodup h)⟩, ?_, ?_,
    ⟨rfl, ?_⟩, drained h, ⟨rfl, ?_⟩, ?_⟩
  · intro press first second rest pre post hsent hpress hquiet hclose hdecided
    exact burst_toggles_once h hsent hpress hquiet hclose hdecided
  · intro a before after harrivals hpress
    exact press_kept h harrivals hpress
  · show (w.step .cancel).step .poll = w.step .poll
    rw [World.step, World.step, World.step, poll_eq_loop h.future, poll_eq_loop (by simp)]
  · intro a ha
    exact List.mem_append_right _ (List.mem_map_of_mem ha)
  · intro w' hw' more hsync
    rcases List.mem_cons.mp hw' with rfl | hw'
    · exact next_edge more hsync h
    · obtain rfl := List.mem_singleton.mp hw'
      exact next_edge more hsync (step_ok h .discardPending)

def ms (n : ℕ) : Event := .tick (n * 1000000)

/-- A resync makes two presses follow each other; a repeat that nothing follows, or whose follower
was discarded or found the queue full, is taken for a press. -/
theorem resync_and_cut_bursts :
    (World.run {} [.poke, .poll, .resync, ms 900, .poke, .poll]).said
      = [.edge .press, .resync, .edge .press] ∧
    (World.run {} [.poke, .poll, ms 500, .poke, ms 200, .poll]).said
      = [.edge .press, .edge .release] ∧
    (World.run {} [.poke, .poll, ms 500, .poke, .discardPending, ms 50, .poke, ms 200, .poll]).said
      = [.edge .press, .edge .release] ∧
    (World.run {} ((List.replicate 7 [Event.poke, ms 900]).flatten.dropLast
        ++ [ms 500, .poke, ms 50, .poke, ms 50, .poke,
          ms 200] ++ List.replicate 9 .poll)).said.length
      = 8 := by
  decide +kernel

end Shortcut

end Desktop

end Myna
