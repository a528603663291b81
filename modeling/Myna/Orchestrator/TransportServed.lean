import Myna.Orchestrator.TransportRuns

/-!
# Myna — what the session pump never waits for

A write may be stuck for as long as the peer likes. The pump still reads what the peer has sent, it
still sees an abort, and a write that failed ends the session once its grace is over. The one thing
that it does wait for is that its events are taken.

* **`reads_on`**, **`aborts`**, **`gives_up`** — by which steps the pump gets there.
-/

namespace Myna

namespace Transport

open UpTo (upTo)

variable {δ : Type*} {D : Dialect δ} {outboundCapacity eventCapacity : ℕ} {start : δ}
  {s t u : Session δ}

/-- A run in which nothing but `acts` happens. -/
def Run (D : Dialect δ) (outboundCapacity eventCapacity : ℕ) (acts : List Act) :
    Session δ → Session δ → Prop :=
  Relation.ReflTransGen fun s t => ∃ a ∈ acts, Step D outboundCapacity eventCapacity a s t

variable {acts more : List Act}

theorem Run.mono (h : Run D outboundCapacity eventCapacity acts s t) (hsub : acts ⊆ more) :
    Run D outboundCapacity eventCapacity more s t :=
  Relation.ReflTransGen.mono
    (fun _ _ hstep => ⟨hstep.choose, hsub hstep.choose_spec.1, hstep.choose_spec.2⟩) _ _ h

theorem Run.of_step {a : Act} (ha : a ∈ acts) (h : Step D outboundCapacity eventCapacity a s t) :
    Run D outboundCapacity eventCapacity acts s t :=
  .single ⟨a, ha, h⟩

theorem Run.trans (h : Run D outboundCapacity eventCapacity acts s t)
    (h' : Run D outboundCapacity eventCapacity acts t u) :
    Run D outboundCapacity eventCapacity acts s u :=
  Relation.ReflTransGen.trans h h'

theorem Run.reachable (h : Run D outboundCapacity eventCapacity acts s t)
    (hs : Reachable D outboundCapacity eventCapacity start s) :
    Reachable D outboundCapacity eventCapacity start t :=
  hs.trans (Relation.ReflTransGen.mono
    (fun _ _ hstep => ⟨hstep.choose, hstep.choose_spec.2⟩) _ _ h)

/-- The owner of the events takes all there are. -/
theorem takes_all (s : Session δ) :
    Run D outboundCapacity eventCapacity [.next] s
      { s with events := [], heard := s.heard ++ s.events } := by
  generalize hevents : s.events = events
  induction events generalizing s with
  | nil =>
    rw [List.append_nil]
    obtain ⟨⟩ := s
    obtain rfl : _ = [] := hevents
    exact .refl
  | cons r rest ih =>
    have hstep : Step D outboundCapacity eventCapacity .next s
        { s with events := rest, heard := s.heard ++ [r] } := .next hevents
    have hrest := ih { s with events := rest, heard := s.heard ++ [r] } rfl
    rw [List.append_assoc, List.singleton_append] at hrest
    exact (Run.of_step (List.mem_singleton_self _) hstep).trans hrest

/-- What sending and taking events leaves as it is. -/
structure Aside (s t : Session δ) : Prop where
  incoming : t.incoming = s.incoming
  writing : t.writing = s.writing
  failed : t.failed = s.failed
  abort : t.abort = s.abort
  now : t.now = s.now
  expired : t.expired = s.expired
  owned : t.owned = s.owned

/-- What has been decoded is sent, or the session is over before. Induction on what is to be
sent. -/
theorem sends_all (outboundCapacity : ℕ) (D : Dialect δ) (hcapacity : 0 < eventCapacity)
    (hover : s.ended = false) :
    ∃ t, Run D outboundCapacity eventCapacity [.send, .next] s t ∧ Aside s t ∧
      (t.ended = true ∧ (∃ r ∈ t.events, ends r = true) ∨ t.ended = false ∧ t.sending = []) := by
  generalize hsending : s.sending = sending
  induction sending generalizing s with
  | nil => exact ⟨s, .refl, ⟨rfl, rfl, rfl, rfl, rfl, rfl, rfl⟩, .inr ⟨hover, hsending⟩⟩
  | cons r rest ih =>
    set taken : Session δ := { s with events := [], heard := s.heard ++ s.events } with htaken
    have htake : Run D outboundCapacity eventCapacity [.send, .next] s taken :=
      (takes_all s).mono (List.subset_cons_self _ _)
    have hsend : Step D outboundCapacity eventCapacity .send taken (taken.send r rest) :=
      .send hover hsending hcapacity
    have hrun := htake.trans (Run.of_step (List.mem_cons_self ..) hsend)
    by_cases hends : ends r = true
    · exact ⟨_, hrun, ⟨rfl, rfl, rfl, rfl, rfl, rfl, rfl⟩,
        .inl ⟨hends, r, List.mem_append_right _ (List.mem_singleton_self r), hends⟩⟩
    · have hgoes : (taken.send r rest).ended = false := Bool.eq_false_of_not_eq_true hends
      obtain ⟨t, hmore, haside, hend⟩ := ih hgoes (if_neg hends)
      exact ⟨t, hrun.trans hmore,
        ⟨haside.incoming, haside.writing, haside.failed, haside.abort, haside.now, haside.expired,
          haside.owned⟩, hend⟩

/-- The pump has seen what came of a write that is over. -/
theorem sees_write (outboundCapacity eventCapacity : ℕ) (D : Dialect δ) (hover : s.ended = false)
    (hsending : s.sending = []) :
    ∃ t, Run D outboundCapacity eventCapacity [.written] s t ∧ t.written? = false ∧
      t.ended = false ∧ t.sending = [] ∧ t.incoming = s.incoming ∧ t.owned = s.owned := by
  by_cases hwritten : s.written? = true
  · obtain ⟨sent, hsent⟩ := Option.isSome_iff_exists.mp hwritten
    obtain ⟨w, hwriting, hsent⟩ := Option.bind_eq_some_iff.mp hsent
    refine ⟨_, .of_step (List.mem_singleton_self _) (.written hover hsending hwriting hsent), ?_⟩
    cases sent <;> exact ⟨rfl, hover, hsending, rfl, rfl⟩
  · exact ⟨s, .refl, Bool.eq_false_of_not_eq_true hwritten, hover, hsending, rfl, rfl⟩

/-- Everything that has arrived is read, or the session is over before. Induction on what has
arrived. -/
theorem reads_all (outboundCapacity : ℕ) (D : Dialect δ) (hcapacity : 0 < eventCapacity)
    (hover : s.ended = false) :
    ∃ t, Run D outboundCapacity eventCapacity [.written, .read, .send, .next] s t ∧
      t.owned = s.owned ∧
        (t.ended = true ∨ t.ended = false ∧ t.incoming = [] ∧ t.sending = []) := by
  generalize hincoming : s.incoming = incoming
  induction incoming generalizing s with
  | nil =>
    obtain ⟨t, hrun, haside, hend⟩ := sends_all outboundCapacity D hcapacity hover
    refine ⟨t, hrun.mono (by simp), haside.owned, hend.imp And.left fun h => ⟨h.1, ?_, h.2⟩⟩
    rw [haside.incoming, hincoming]
  | cons frame rest ih =>
    obtain ⟨t, hrun, haside, hend⟩ := sends_all outboundCapacity D hcapacity hover
    have hsent : Run D outboundCapacity eventCapacity [.written, .read, .send, .next] s t :=
      hrun.mono (by simp)
    rcases hend with hend | ⟨hgoes, hsending⟩
    · exact ⟨t, hsent, haside.owned, .inl hend.1⟩
    obtain ⟨u, hsee, hwritten, hgoes, hsending, hsame, howned⟩ :=
      sees_write outboundCapacity eventCapacity D hgoes hsending
    have hfirst : u.incoming = frame :: rest := by rw [hsame, haside.incoming, hincoming]
    have hread := hsent.trans ((hsee.mono (by simp)).trans
      (Run.of_step (by simp) (.read hgoes hsending hwritten hfirst)))
    have howned : (u.readNext D frame rest).owned = s.owned := howned.trans haside.owned
    by_cases hclose : frame.incoming = .close
    · exact ⟨_, hread, howned, .inl (decide_eq_true hclose)⟩
    · obtain ⟨v, hmore, hkept, hend⟩ := ih (s := u.readNext D frame rest)
        (decide_eq_false hclose) rfl
      exact ⟨v, hread.trans hmore, hkept.trans howned, hend⟩

/-- Nothing arrives, and nothing is put on the wire, but by a step that does it. -/
theorem Run.same (h : Run D outboundCapacity eventCapacity acts s t) :
    (.arrive ∉ acts → t.arrived = s.arrived) ∧ (.flush ∉ acts → t.wire = s.wire) := by
  induction h with
  | refl => exact ⟨fun _ => rfl, fun _ => rfl⟩
  | @tail u v _ hlast ih =>
    obtain ⟨a, ha, hstep⟩ := hlast
    suffices hsame : (a ≠ .arrive → v.arrived = u.arrived) ∧ (a ≠ .flush → v.wire = u.wire) from
      ⟨fun hnot => (hsame.1 fun heq => hnot (heq ▸ ha)).trans (ih.1 hnot),
        fun hnot => (hsame.2 fun heq => hnot (heq ▸ ha)).trans (ih.2 hnot)⟩
    cases hstep with
    | arrive => exact ⟨fun hne => absurd rfl hne, fun _ => rfl⟩
    | @flush _ w sent =>
      refine ⟨fun _ => ?_, fun hne => absurd rfl hne⟩
      cases sent <;> rfl
    | @written _ w sent => cases sent <;> exact ⟨fun _ => rfl, fun _ => rfl⟩
    | aborted | outOfGrace | queue | closed | read | send | reserve | dropSinks | abort | elapse |
      next | hangUp => exact ⟨fun _ => rfl, fun _ => rfl⟩

/-- What the owner of the events has heard, once it has taken all there are. -/
theorem heard_all (hin : Inward D s) (howned : s.owned = true) (hevents : s.events = [])
    (hend : s.ended = true ∨ s.ended = false ∧ s.sending = []) :
    s.heard = upTo ends (s.meant D) := by
  rcases hend with hover | ⟨hover, hsending⟩
  · have h := hin.whole hover howned
    rwa [hevents, List.append_nil] at h
  · rw [upTo_meant hover hin, hevents, hsending, upTo, List.append_nil, List.append_nil]

/-- **A peer that has stopped reading cannot hide what it says**: whatever has come of a write, and
with nothing more coming of it, all that the peer has sent is read, or the session is over before,
and the owner of the events has heard what came of it. -/
theorem reads_on (h : Reachable D outboundCapacity eventCapacity start s)
    (hcapacity : 0 < eventCapacity) (hover : s.ended = false) (howned : s.owned = true) :
    ∃ t, Run D outboundCapacity eventCapacity [.written, .read, .send, .next] s t ∧
      t.heard = upTo ends (t.meant D) ∧ (t.ended = true ∨ t.read.map Prod.fst = s.arrived) := by
  obtain ⟨t, hrun, hsame, hend⟩ := reads_all outboundCapacity D hcapacity hover
  have htaken := hrun.trans ((takes_all t).mono (by simp))
  refine ⟨_, htaken, heard_all (htaken.reachable h).inv.inward (hsame.trans howned) rfl
    (hend.imp_right fun hend => ⟨hend.1, hend.2.2⟩), hend.imp_right fun hend => ?_⟩
  have harrived := (htaken.reachable h).inv.arrived
  rw [htaken.same.1 (by simp)] at harrived
  rw [harrived]
  show t.read.map Prod.fst = t.read.map Prod.fst ++ t.incoming
  rw [hend.2.1, List.append_nil]

theorem reads_on_broken :
    ∃ s t, Run (internal fun _ => .error "no JSON") 16 64 [.written, .read, .send, .next] s t ∧
      s.failed = some ("broken pipe", 2000) ∧ s.arrived = [⟨0, .text "?"⟩] ∧
      (t.ended = true ∨ t.read.map Prod.fst = s.arrived) := by
  obtain ⟨s, h, -, harrived, hfailed, -, hover, howned⟩ :=
    reachable_broken (fun _ => .error "no JSON") ⟨[1, 2], {}⟩
  obtain ⟨t, hrun, -, hend⟩ := reads_on h (by decide) hover howned
  exact ⟨s, t, hrun, hfailed, harrived, hend⟩

/-- **An abort waits for nothing but the owner of the events**, and puts nothing more on the
wire. -/
theorem aborts (hcapacity : 0 < eventCapacity) (hover : s.ended = false) (habort : s.abort = true) :
    ∃ t, Run D outboundCapacity eventCapacity [.send, .next, .aborted] s t ∧ t.ended = true ∧
      t.wire = s.wire := by
  obtain ⟨t, hrun, haside, hend⟩ := sends_all outboundCapacity D hcapacity hover
  have hsent : Run D outboundCapacity eventCapacity [.send, .next, .aborted] s t :=
    hrun.mono (by simp)
  rcases hend with hend | ⟨hgoes, hsending⟩
  · exact ⟨t, hsent, hend.1, hsent.same.2 (by simp)⟩
  · have hrest := hsent.trans (Run.of_step (by simp)
      (.aborted hgoes hsending (haside.abort.trans habort)))
    exact ⟨_, hrest, rfl, hrest.same.2 (by simp)⟩

/-- The owner hears what ended the session. -/
theorem hears_end (h : Reachable D outboundCapacity eventCapacity start s)
    (howned : s.owned = true) (hover : s.ended = true) (hend : ∃ r ∈ s.events, ends r = true) :
    ∃ t, Run D outboundCapacity eventCapacity [.next] s t ∧ t.ended = true ∧
      t.heard = upTo ends (t.meant D) ∧ ∃ r ∈ t.heard, ends r = true := by
  obtain ⟨r, hr, hends⟩ := hend
  exact ⟨_, takes_all s, hover, heard_all ((takes_all s).reachable h).inv.inward howned rfl
    (.inl hover), r, List.mem_append_right _ hr, hends⟩

/-- **A write that failed ends the session**: once its grace is over, and whatever is still queued
or the peer still sends, the session ends by an error or by the end of the transcript. -/
theorem gives_up {error : String} {due : ℕ} (h : Reachable D outboundCapacity eventCapacity start s)
    (hcapacity : 0 < eventCapacity) (hover : s.ended = false) (howned : s.owned = true)
    (hfailed : s.failed = some (error, due)) (hdue : due ≤ s.now) :
    ∃ t, Run D outboundCapacity eventCapacity [.outOfGrace, .send, .next] s t ∧ t.ended = true ∧
      t.heard = upTo ends (t.meant D) ∧ ∃ r ∈ t.heard, ends r = true := by
  obtain ⟨t, hrun, haside, hend⟩ := sends_all outboundCapacity D hcapacity hover
  have hsent : Run D outboundCapacity eventCapacity [.outOfGrace, .send, .next] s t :=
    hrun.mono (by simp)
  have howned := haside.owned.trans howned
  rcases hend with ⟨hend, hlast⟩ | ⟨hgoes, hsending⟩
  · -- what had been decoded before ends the session
    obtain ⟨u, htaken, hheard⟩ := hears_end (hsent.reachable h) howned hend hlast
    exact ⟨u, hsent.trans (htaken.mono (by simp)), hheard⟩
  · have hgrace := hsent.trans (.of_step (by simp) (.outOfGrace hgoes hsending
      (haside.failed.trans hfailed) (hdue.trans_eq haside.now.symm)))
    obtain ⟨u, hmore, haside', hend⟩ := sends_all outboundCapacity D hcapacity
      (s := t.outOfGrace error) hgoes
    have hall := hgrace.trans (hmore.mono (by simp))
    rcases hend with ⟨hend, hlast⟩ | ⟨hgoes, hsending⟩
    · obtain ⟨v, htaken, hheard⟩ := hears_end (hall.reachable h) (haside'.owned.trans howned)
        hend hlast
      exact ⟨v, hall.trans (htaken.mono (by simp)), hheard⟩
    · -- the error of the write cannot have been sent without ending it
      have hnone := expired_none (hall.reachable h).inv.inward hgoes hsending
      exact absurd (haside'.expired.symm.trans hnone) (Option.some_ne_none error)

theorem gives_up_broken :
    ∃ s, s.failed = some ("broken pipe", 2000) ∧
      ∃ t, Run (internal fun _ => .error "no JSON") 16 64 [.outOfGrace, .send, .next] s t ∧
        t.ended = true ∧ ∃ r ∈ t.heard, ends r = true := by
  obtain ⟨s, h, -, -, hfailed, hnow, hover, howned⟩ :=
    reachable_broken (fun _ => .error "no JSON") ⟨[1, 2], {}⟩
  obtain ⟨t, hrun, hend, -, hlast⟩ :=
    gives_up h (by decide) hover howned hfailed (by rw [hnow])
  exact ⟨s, hfailed, t, hrun, hend, hlast⟩

end Transport

end Myna
