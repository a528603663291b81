import Myna.Orchestrator.Transport
import Myna.Lib.StepSystem
import Myna.Lib.UpTo

/-!
# Myna — runs of the session pump

What is on the wire, what the dialect knows of it, and what the owner of the events hears.

* **`wire_is_accepted`** — what is on the wire is what the sinks accepted, in order and once;
* **`heard_is_read`** — what is heard is what was read, up to what ends the session;
* **`answer_is_after_commit`** — an answer to the commit is decoded as one.
-/

namespace Myna

namespace Transport

open Myna.Client (TranscriptionEvent WireError fromWire decodeFrame)
open Myna.SessionWire (Outbound Message)
open UpTo (upTo upTo_append)

variable {δ : Type*}

/-! ## What a dialect makes of items -/

namespace Dialect

variable (D : Dialect δ)

/-- The dialect once `items` have been written. -/
def told (d : δ) (items : List Outbound) : δ :=
  items.foldl (fun d item => D.written d (isFinish item)) d

/-- The frames of items that are written one after another. -/
def stream : δ → List Outbound → List Message
  | _, [] => []
  | d, item :: rest => D.encode d item :: stream (D.written d (isFinish item)) rest

theorem told_concat (d : δ) (items : List Outbound) (item : Outbound) :
    D.told d (items ++ [item]) = D.written (D.told d items) (isFinish item) := by
  simp only [told, List.foldl_append, List.foldl_cons, List.foldl_nil]

theorem stream_concat (d : δ) (items : List Outbound) (item : Outbound) :
    D.stream d (items ++ [item]) = D.stream d items ++ [D.encode (D.told d items) item] := by
  induction items generalizing d with
  | nil => rfl
  | cons first items ih =>
    show D.encode d first :: D.stream _ (items ++ [item]) = _
    rw [ih]
    rfl

theorem length_stream (d : δ) (items : List Outbound) :
    (D.stream d items).length = items.length := by
  induction items generalizing d with
  | nil => rfl
  | cons first items ih => exact congrArg (· + 1) (ih _)

end Dialect

/-! ## The invariant -/

section

variable (D : Dialect δ) (start : δ)

/-- Where the writer stands, once `done` is on the wire and `held` is neither there nor queued. -/
inductive Writer (done : List Outbound) (idle : Bool) (writing : Option Write)
    (failed : Option (String × ℕ)) (dialect : δ) : List Outbound → Prop
  | idle (hwriting : writing = none) (hfailed : failed = none)
    (hdialect : dialect = D.told start done) : Writer done idle writing failed dialect []
  | writing {item} (hidle : idle = false)
    (hwriting : writing = some ⟨item, D.encode (D.told start done) item, none⟩)
    (hfailed : failed = none) (hdialect : dialect = D.told start done) :
    Writer done idle writing failed dialect [item]
  | flushed {before item message} (hidle : idle = false)
    (hwriting : writing = some ⟨item, message, some (.ok ())⟩) (hfailed : failed = none)
    (hdone : done = before ++ [item]) (hdialect : dialect = D.told start before) :
    Writer done idle writing failed dialect []
  | broken {item message error} (hidle : idle = false)
    (hwriting : writing = some ⟨item, message, some (.error error)⟩) (hfailed : failed = none)
    (hdialect : dialect = D.told start done) : Writer done idle writing failed dialect [item]
  | lost {item} (hidle : idle = false) (hwriting : writing = none)
    (hdialect : dialect = D.told start done) : Writer done idle writing failed dialect [item]

/-- What has been accepted is on the wire, or held, or queued. -/
def Outward (s : Session δ) : Prop :=
  ∃ done held, s.accepted = done ++ (held ++ s.queue) ∧ s.wire = D.stream start done ∧
    Writer D start done s.idle s.writing s.failed s.dialect held

/-- The dialect that decoded a frame had been told of some of what was accepted: of all that the
peer had received, and of nothing that was not on the wire. -/
def Informed (accepted : List Outbound) (onWire : ℕ) (read : Arrival × δ) : Prop :=
  ∃ items, items <+: accepted ∧ read.1.seen ≤ items.length ∧ items.length ≤ onWire ∧
    read.2 = D.told start items

/-- All that the pump has had to send: what it read, and the error of a write. -/
def Session.meant (s : Session δ) : List Result :=
  s.read.flatMap (fun read => results D read.2 read.1.incoming) ++
    (s.expired.map fun error => .error (.transport error)).toList

/-- What has been sent, and what is still to be sent. -/
def Inward (s : Session δ) : Prop :=
  if s.ended then s.heard ++ s.events <+: upTo ends (s.meant D) ∧
    (s.owned = true → s.heard ++ s.events = upTo ends (s.meant D))
  else s.heard ++ (s.events ++ s.sending) = s.meant D ∧
    (∀ r ∈ s.heard ++ s.events, ends r = false) ∧
    ∀ error, s.expired = some error → s.sending = [.error (.transport error)]

structure Inv (s : Session δ) : Prop where
  outward : Outward D start s
  informed : ∀ read ∈ s.read, Informed D start s.accepted s.wire.length read
  received : ∀ arrival ∈ s.incoming, arrival.seen ≤ s.wire.length
  arrived : s.arrived = s.read.map Prod.fst ++ s.incoming
  inward : Inward D s

end

variable {D : Dialect δ} {start : δ} {outboundCapacity eventCapacity : ℕ} {a : Act}
  {s t : Session δ}

/-! ## What goes out -/

theorem outward_flush {w : Write} (h : s.writing = some w) (hsent : w.sent = none)
    (hout : Outward D start s) (sent : Except String Unit) : Outward D start (s.flush w sent) := by
  obtain ⟨done, held, haccepted, hwire, hwriter⟩ := hout
  cases hwriter with
  | idle hwriting => exact absurd (h.symm.trans hwriting) (Option.some_ne_none w)
  | lost _ hwriting => exact absurd (h.symm.trans hwriting) (Option.some_ne_none w)
  | flushed _ hwriting =>
    rw [Option.some.inj (h.symm.trans hwriting)] at hsent
    exact absurd hsent (Option.some_ne_none _)
  | broken _ hwriting =>
    rw [Option.some.inj (h.symm.trans hwriting)] at hsent
    exact absurd hsent (Option.some_ne_none _)
  | @writing item hidle hwriting hfailed hdialect =>
    obtain rfl := Option.some.inj (h.symm.trans hwriting)
    cases sent with
    | ok =>
      refine ⟨done ++ [item], [], ?_, ?_, .flushed hidle rfl hfailed rfl hdialect⟩
      · rw [List.append_assoc]
        exact haccepted
      · show s.wire ++ [D.encode (D.told start done) item] = _
        rw [hwire, D.stream_concat]
    | error e => exact ⟨done, [item], haccepted, hwire, .broken hidle rfl hfailed hdialect⟩

theorem outward_writeOver {w : Write} {sent : Except String Unit} (h : s.writing = some w)
    (hsent : w.sent = some sent) (hout : Outward D start s) :
    Outward D start (s.writeOver D w sent) := by
  obtain ⟨done, held, haccepted, hwire, hwriter⟩ := hout
  cases hwriter with
  | idle hwriting => exact absurd (h.symm.trans hwriting) (Option.some_ne_none w)
  | lost _ hwriting => exact absurd (h.symm.trans hwriting) (Option.some_ne_none w)
  | writing _ hwriting =>
    rw [Option.some.inj (h.symm.trans hwriting)] at hsent
    exact absurd hsent.symm (Option.some_ne_none _)
  | flushed hidle hwriting hfailed hdone hdialect =>
    obtain rfl := Option.some.inj (h.symm.trans hwriting)
    obtain rfl := Option.some.inj hsent
    refine ⟨done, [], haccepted, hwire, .idle rfl hfailed ?_⟩
    show D.written s.dialect _ = _
    rw [hdone, D.told_concat, hdialect]
  | broken hidle hwriting hfailed hdialect =>
    obtain rfl := Option.some.inj (h.symm.trans hwriting)
    obtain rfl := Option.some.inj hsent
    exact ⟨done, _, haccepted, hwire, .lost hidle rfl hdialect⟩

theorem outward_take {item : Outbound} {rest : List Outbound} (hidle : s.idle = true)
    (h : s.queue = item :: rest) (hout : Outward D start s) :
    Outward D start (s.take D item rest) := by
  obtain ⟨done, held, haccepted, hwire, hwriter⟩ := hout
  cases hwriter with
  | idle hwriting hfailed hdialect =>
    refine ⟨done, [item], ?_, hwire, .writing rfl ?_ hfailed hdialect⟩
    · rw [h] at haccepted
      exact haccepted
    · show some _ = some _
      rw [hdialect]
  | writing hbusy | flushed hbusy | broken hbusy | lost hbusy =>
    exact absurd (hidle.symm.trans hbusy) Bool.noConfusion

theorem outward_outOfGrace {error : String} {due : ℕ} (h : s.failed = some (error, due))
    (hout : Outward D start s) : Outward D start (s.outOfGrace error) := by
  obtain ⟨done, held, haccepted, hwire, hwriter⟩ := hout
  cases hwriter with
  | idle _ hfailed | writing _ _ hfailed | flushed _ _ hfailed | broken _ _ hfailed =>
    exact absurd (h.symm.trans hfailed) (Option.some_ne_none _)
  | lost hidle hwriting hdialect =>
    exact ⟨done, _, haccepted, hwire, .lost hidle hwriting hdialect⟩

theorem outward_step (hstep : Step D outboundCapacity eventCapacity a s t)
    (hout : Outward D start s) : Outward D start t := by
  cases hstep with
  | written _ _ h hsent => exact outward_writeOver h hsent hout
  | outOfGrace _ _ h => exact outward_outOfGrace h hout
  | queue _ _ _ hidle h => exact outward_take hidle h hout
  | flush sent _ h hsent => exact outward_flush h hsent hout sent
  | reserve item =>
    obtain ⟨done, held, haccepted, hwire, hwriter⟩ := hout
    refine ⟨done, held, ?_, hwire, hwriter⟩
    show s.accepted ++ [item] = done ++ (held ++ (s.queue ++ [item]))
    rw [haccepted, List.append_assoc, List.append_assoc]
  | aborted | closed | read | send | dropSinks | abort | arrive | elapse | next | hangUp =>
    exact hout

/-- Every step keeps what has been accepted and what is on the wire. -/
theorem grows (hstep : Step D outboundCapacity eventCapacity a s t) :
    s.accepted <+: t.accepted ∧ s.wire <+: t.wire := by
  cases hstep with
  | reserve item => exact ⟨List.prefix_append _ _, List.prefix_rfl⟩
  | @flush _ w sent =>
    cases sent with
    | ok => exact ⟨List.prefix_rfl, List.prefix_append _ _⟩
    | error => exact ⟨List.prefix_rfl, List.prefix_rfl⟩
  | @written _ w sent => cases sent <;> exact ⟨List.prefix_rfl, List.prefix_rfl⟩
  | aborted | outOfGrace | queue | closed | read | send | dropSinks | abort | arrive | elapse |
    next | hangUp => exact ⟨List.prefix_rfl, List.prefix_rfl⟩

/-! ## What the dialect knows -/

/-- Unless a write is over that the pump has not seen, the dialect knows of all on the wire. -/
theorem told_of_not_written (hout : Outward D start s) (h : s.written? = false) :
    ∃ items, items <+: s.accepted ∧ items.length = s.wire.length ∧
      s.dialect = D.told start items := by
  obtain ⟨done, held, haccepted, hwire, hwriter⟩ := hout
  have hlength : done.length = s.wire.length := by rw [hwire, D.length_stream]
  refine ⟨done, haccepted ▸ List.prefix_append _ _, hlength, ?_⟩
  unfold Session.written? at h
  cases hwriter with
  | idle _ _ hdialect | writing _ _ _ hdialect | lost _ _ hdialect => exact hdialect
  | flushed _ hwriting | broken _ hwriting =>
    rw [hwriting] at h
    cases h

theorem Informed.mono {read : Arrival × δ} (h : Informed D start s.accepted s.wire.length read)
    (hstep : Step D outboundCapacity eventCapacity a s t) :
    Informed D start t.accepted t.wire.length read := by
  obtain ⟨items, hitems, hseen, hlength, htold⟩ := h
  obtain ⟨haccepted, hwire⟩ := grows hstep
  exact ⟨items, hitems.trans haccepted, hseen, hlength.trans hwire.length_le, htold⟩

theorem informed_step (hinv : Inv D start s)
    (hstep : Step D outboundCapacity eventCapacity a s t) :
    ∀ read ∈ t.read, Informed D start t.accepted t.wire.length read := by
  have hold := fun read hread => (hinv.informed read hread).mono hstep
  cases hstep with
  | @read _ frame rest hover hsending hwritten h =>
    intro read hread
    rcases List.mem_append.mp hread with hread | hread
    · exact hold read hread
    · obtain rfl := List.mem_singleton.mp hread
      obtain ⟨items, hitems, hlength, htold⟩ := told_of_not_written hinv.outward hwritten
      have hseen := hinv.received frame (h ▸ List.mem_cons_self)
      exact ⟨items, hitems, hlength.symm ▸ hseen, hlength.le, htold⟩
  | @written _ w sent => cases sent <;> exact hold
  | @flush _ w sent => cases sent <;> exact hold
  | aborted | outOfGrace | queue | closed | send | reserve | dropSinks | abort | arrive | elapse |
    next | hangUp => exact hold

theorem received_step (hinv : Inv D start s)
    (hstep : Step D outboundCapacity eventCapacity a s t) :
    ∀ arrival ∈ t.incoming, arrival.seen ≤ t.wire.length := by
  have hold := fun arrival harrival =>
    (hinv.received arrival harrival).trans (grows hstep).2.length_le
  cases hstep with
  | @read _ frame rest _ _ _ h =>
    exact fun arrival harrival => hold arrival (h ▸ List.mem_cons_of_mem frame harrival)
  | arrive seen incoming hseen =>
    intro arrival harrival
    rcases List.mem_append.mp harrival with harrival | harrival
    · exact hold arrival harrival
    · obtain rfl := List.mem_singleton.mp harrival
      exact hseen
  | @written _ w sent => cases sent <;> exact hold
  | @flush _ w sent => cases sent <;> exact hold
  | aborted | outOfGrace | queue | closed | send | reserve | dropSinks | abort | elapse |
    next | hangUp => exact hold

theorem arrived_step (hinv : Inv D start s)
    (hstep : Step D outboundCapacity eventCapacity a s t) :
    t.arrived = t.read.map Prod.fst ++ t.incoming := by
  have hold := hinv.arrived
  cases hstep with
  | @read _ frame rest _ _ _ h =>
    show s.arrived = (s.read ++ [(frame, s.dialect)]).map Prod.fst ++ rest
    rw [hold, h, List.map_append, List.append_assoc]
    rfl
  | arrive seen incoming =>
    show s.arrived ++ _ = _
    rw [hold, List.append_assoc]
  | @written _ w sent => cases sent <;> exact hold
  | @flush _ w sent => cases sent <;> exact hold
  | aborted | outOfGrace | queue | closed | send | reserve | dropSinks | abort | elapse |
    next | hangUp => exact hold

/-! ## What is heard -/

theorem says_read (frame : Arrival) (rest : List Arrival) (hexpired : s.expired = none) :
    (s.readNext D frame rest).meant D = s.meant D ++ results D s.dialect frame.incoming := by
  have hexpired' : (s.readNext D frame rest).expired = none := hexpired
  unfold Session.meant
  rw [hexpired, hexpired']
  show (s.read ++ [(frame, s.dialect)]).flatMap _ ++ [] = (_ ++ []) ++ _
  rw [List.append_nil, List.append_nil, List.flatMap_append, List.flatMap_singleton]

theorem meant_outOfGrace (error : String) (hexpired : s.expired = none) :
    (s.outOfGrace error).meant D = s.meant D ++ [.error (.transport error)] := by
  unfold Session.meant
  rw [hexpired]
  show _ ++ [_] = (_ ++ []) ++ [_]
  rw [List.append_nil]
  rfl

/-- What a session that is not over has sent does not end it. -/
theorem upTo_meant (hover : s.ended = false) (hin : Inward D s) :
    upTo ends (s.meant D) = s.heard ++ s.events ++ upTo ends s.sending := by
  rw [Inward, if_neg (by rw [hover]; exact Bool.false_ne_true)] at hin
  obtain ⟨hmeant, hgoes, -⟩ := hin
  rw [← hmeant, ← List.append_assoc, upTo_append hgoes]

theorem Inward.sent_prefix (hin : Inward D s) : s.heard ++ s.events <+: upTo ends (s.meant D) := by
  by_cases hover : s.ended = true
  · rw [Inward, if_pos hover] at hin
    exact hin.1
  · rw [upTo_meant (Bool.eq_false_of_not_eq_true hover) hin]
    exact List.prefix_append _ _

theorem Inward.goes (hin : Inward D s) (hover : s.ended = false) :
    s.heard ++ (s.events ++ s.sending) = s.meant D ∧
      (∀ r ∈ s.heard ++ s.events, ends r = false) ∧
      ∀ error, s.expired = some error → s.sending = [.error (.transport error)] := by
  rwa [Inward, if_neg (by rw [hover]; exact Bool.false_ne_true)] at hin

theorem Inward.whole (hin : Inward D s) (hover : s.ended = true) (howned : s.owned = true) :
    s.heard ++ s.events = upTo ends (s.meant D) := by
  rw [Inward, if_pos hover] at hin
  exact hin.2 howned

theorem inward_of_over (hover : t.ended = true) (h : t.heard ++ t.events = upTo ends (t.meant D)) :
    Inward D t := by
  rw [Inward, if_pos hover]
  exact ⟨h ▸ List.prefix_rfl, fun _ => h⟩

theorem inward_of_not_over (hover : t.ended = false)
    (h : t.heard ++ (t.events ++ t.sending) = t.meant D ∧
      (∀ r ∈ t.heard ++ t.events, ends r = false) ∧
      ∀ error, t.expired = some error → t.sending = [.error (.transport error)]) :
    Inward D t := by
  rwa [Inward, if_neg (by rw [hover]; exact Bool.false_ne_true)]

theorem expired_none (hin : Inward D s) (hover : s.ended = false) (hsending : s.sending = []) :
    s.expired = none := by
  have h := (hin.goes hover).2.2
  cases hexpired : s.expired with
  | none => rfl
  | some error => exact absurd (hsending.symm.trans (h error hexpired)) (List.cons_ne_nil _ _).symm

theorem inward_read {frame : Arrival} {rest : List Arrival} (hover : s.ended = false)
    (hsending : s.sending = []) (hin : Inward D s) : Inward D (s.readNext D frame rest) := by
  have hexpired := expired_none hin hover hsending
  obtain ⟨hmeant, hgoes, -⟩ := hin.goes hover
  rw [hsending, List.append_nil] at hmeant
  have hread := says_read (D := D) frame rest hexpired
  by_cases hclose : frame.incoming = .close
  · -- nothing comes of a close
    refine inward_of_over (decide_eq_true hclose) ?_
    rw [hread, hclose, ← hmeant]
    show s.heard ++ s.events = upTo ends (s.heard ++ s.events ++ [])
    rw [upTo_append hgoes, upTo, List.append_nil]
  · refine inward_of_not_over (decide_eq_false hclose) ⟨?_, hgoes, ?_⟩
    · rw [hread, ← hmeant]
      exact (List.append_assoc _ _ _).symm
    · exact fun error h => absurd (hexpired.symm.trans h) (Option.some_ne_none error).symm

theorem inward_send {r : Result} {rest : List Result} (hover : s.ended = false)
    (h : s.sending = r :: rest) (hin : Inward D s) : Inward D (s.send r rest) := by
  obtain ⟨hmeant, hgoes, hwrite⟩ := hin.goes hover
  by_cases hends : ends r = true
  · refine inward_of_over hends ?_
    show s.heard ++ (s.events ++ [r]) = upTo ends (s.meant D)
    rw [upTo_meant hover hin, h, List.append_assoc]
    show _ = s.heard ++ (s.events ++ if ends r then [r] else _)
    rw [if_pos hends]
  · rw [Bool.not_eq_true] at hends
    refine inward_of_not_over hends ⟨?_, ?_, ?_⟩
    · show s.heard ++ (s.events ++ [r] ++ if ends r then [] else rest) = s.meant D
      rw [← hmeant, h, hends, if_neg Bool.false_ne_true, List.append_assoc, List.singleton_append]
    · show ∀ r' ∈ s.heard ++ (s.events ++ [r]), ends r' = false
      rw [← List.append_assoc]
      exact List.forall_mem_append.mpr ⟨hgoes, List.forall_mem_singleton.mpr hends⟩
    · -- the error of an expired write is all there is to send, and ends the session
      intro error hexpired
      obtain ⟨rfl, -⟩ := List.cons.inj (h.symm.trans (hwrite error hexpired))
      cases hends

theorem inward_outOfGrace {error : String} (hover : s.ended = false) (hsending : s.sending = [])
    (hin : Inward D s) : Inward D (s.outOfGrace error) := by
  obtain ⟨hmeant, hgoes, -⟩ := hin.goes hover
  refine inward_of_not_over hover ⟨?_, hgoes, fun error' h => ?_⟩
  · rw [meant_outOfGrace error (expired_none hin hover hsending), ← hmeant, hsending,
      List.append_nil]
    exact (List.append_assoc _ _ _).symm
  · obtain rfl := Option.some.inj h
    rfl

/-- A step that neither reads nor sends, and does not end the session. -/
theorem inward_frame (hin : Inward D s) (hover : t.ended = s.ended) (howned : t.owned = s.owned)
    (hsent : t.heard ++ t.events = s.heard ++ s.events) (hsending : t.sending = s.sending)
    (hread : t.read = s.read) (hexpired : t.expired = s.expired) : Inward D t := by
  have hmeant : t.meant D = s.meant D := by
    unfold Session.meant
    rw [hread, hexpired]
  rw [Inward, ← List.append_assoc, hsent, hsending, hmeant, hexpired, hover, howned,
    List.append_assoc]
  exact hin

theorem inward_step (hstep : Step D outboundCapacity eventCapacity a s t) (hin : Inward D s) :
    Inward D t := by
  cases hstep with
  | read hover hsending => exact inward_read hover hsending hin
  | send hover h => exact inward_send hover h hin
  | outOfGrace hover hsending => exact inward_outOfGrace hover hsending hin
  | aborted hover hsending =>
    refine inward_of_over rfl ?_
    show s.heard ++ s.events = upTo ends (s.meant D)
    rw [upTo_meant hover hin, hsending, upTo, List.append_nil]
  | hangUp =>
    have hsent : s.heard ++ [] <+: upTo ends (s.meant D) := by
      rw [List.append_nil]
      exact (List.prefix_append _ _).trans hin.sent_prefix
    exact ⟨hsent, fun h => absurd h Bool.false_ne_true⟩
  | @next _ r rest h =>
    refine inward_frame hin rfl rfl ?_ rfl rfl rfl
    show s.heard ++ [r] ++ rest = s.heard ++ s.events
    rw [h, List.append_assoc, List.singleton_append]
  | @written _ w sent => cases sent <;> exact inward_frame hin rfl rfl rfl rfl rfl rfl
  | @flush _ w sent => cases sent <;> exact inward_frame hin rfl rfl rfl rfl rfl rfl
  | queue | closed | reserve | dropSinks | abort | arrive | elapse =>
    exact inward_frame hin rfl rfl rfl rfl rfl rfl

/-! ## Runs -/

theorem Inv.step (hinv : Inv D start s) (hstep : Step D outboundCapacity eventCapacity a s t) :
    Inv D start t where
  outward := outward_step hstep hinv.outward
  informed := informed_step hinv hstep
  received := received_step hinv hstep
  arrived := arrived_step hinv hstep
  inward := inward_step hstep hinv.inward

/-- The pump starts with a dialect, and nothing else. -/
def Reachable (D : Dialect δ) (outboundCapacity eventCapacity : ℕ) (start : δ) (s : Session δ) :
    Prop :=
  StepSystem.Reachable (fun s t => ∃ a, Step D outboundCapacity eventCapacity a s t)
    { dialect := start } s

theorem Inv.init : Inv D start { dialect := start } where
  outward := ⟨[], [], rfl, rfl, .idle rfl rfl rfl⟩
  informed _ h := absurd h List.not_mem_nil
  received _ h := absurd h List.not_mem_nil
  arrived := rfl
  inward := ⟨rfl, fun _ h => absurd h List.not_mem_nil, fun _ h => absurd h.symm
    (Option.some_ne_none _)⟩

theorem Reachable.inv (h : Reachable D outboundCapacity eventCapacity start s) :
    Inv D start s :=
  StepSystem.reachable_induction h .init fun _ _ hinv hstep => hinv.step hstep.choose_spec

theorem Writer.length_held {done held : List Outbound} {idle : Bool} {writing : Option Write}
    {failed : Option (String × ℕ)} {dialect : δ}
    (h : Writer D start done idle writing failed dialect held) : held.length ≤ 1 := by
  cases h with
  | idle | flushed => exact Nat.zero_le 1
  | writing | broken | lost => exact le_rfl

/-- A writer that is gone never comes back. -/
theorem wire_of_lost (hidle : s.idle = false) (hwriting : s.writing = none)
    (hrun : Relation.ReflTransGen
      (fun s t => ∃ a, Step D outboundCapacity eventCapacity a s t) s t) : t.wire = s.wire := by
  suffices h : t.idle = false ∧ t.writing = none ∧ t.wire = s.wire from h.2.2
  refine StepSystem.reachable_induction
    (I := fun t => t.idle = false ∧ t.writing = none ∧ t.wire = s.wire) hrun
    ⟨hidle, hwriting, rfl⟩ ?_
  intro u v h hstep
  obtain ⟨a, hstep⟩ := hstep
  cases hstep with
  | written _ _ hsome | flush _ _ hsome =>
    exact absurd (hsome.symm.trans h.2.1) (Option.some_ne_none _)
  | queue _ _ _ hbusy => exact absurd (hbusy.symm.trans h.1) Bool.noConfusion
  | aborted | outOfGrace | closed | read | send | reserve | dropSinks | abort | arrive | elapse |
    next | hangUp => exact h

/-- **What is on the wire is what the sinks accepted**, in order and each item once, as the dialect
frames it when it has been told of all before. All but one item at most of the rest is still
queued, and once a write has failed nothing more is written. -/
theorem wire_is_accepted (h : Reachable D outboundCapacity eventCapacity start s) :
    (∃ done held, s.accepted = done ++ (held ++ s.queue) ∧ s.wire = D.stream start done ∧
      held.length ≤ 1) ∧
    (s.failed.isSome = true → ∀ t, Relation.ReflTransGen
      (fun s t => ∃ a, Step D outboundCapacity eventCapacity a s t) s t → t.wire = s.wire) := by
  obtain ⟨done, held, haccepted, hwire, hwriter⟩ := h.inv.outward
  refine ⟨⟨done, held, haccepted, hwire, hwriter.length_held⟩, fun hsome t hrun => ?_⟩
  cases hwriter with
  | idle _ hfailed | writing _ _ hfailed | flushed _ _ hfailed | broken _ _ hfailed =>
    rw [hfailed] at hsome
    cases hsome
  | lost hidle hwriting => exact wire_of_lost hidle hwriting hrun

/-- A run in which the peer answers with no JSON, and the first of two items cannot be written. -/
theorem reachable_broken (fromStr : String → Except String Json) (chunk : PcmChunk) :
    ∃ s, Reachable (internal fromStr) 16 64 () s ∧ s.accepted = [.audio chunk, .finish] ∧
      s.arrived = [⟨0, .text "?"⟩] ∧ s.failed = some ("broken pipe", 2000) ∧ s.now = 2000 ∧
      s.ended = false ∧ s.owned = true :=
  ⟨_, (((((((Relation.ReflTransGen.refl.tail
    ⟨_, .reserve (.audio chunk) rfl rfl (by decide)⟩).tail
    ⟨_, .reserve .finish rfl rfl (by simp)⟩).tail
    ⟨_, .queue rfl rfl rfl rfl rfl⟩).tail
    ⟨_, .flush (.error "broken pipe") rfl rfl rfl⟩).tail
    ⟨_, .written rfl rfl rfl rfl⟩).tail
    ⟨_, .arrive 0 (.text "?") (Nat.zero_le _)⟩).tail
    ⟨_, .elapse 2000⟩), rfl, rfl, rfl, rfl, rfl, rfl⟩

theorem wire_of_broken :
    ∃ s, Reachable (internal fun _ => .error "no JSON") 16 64 () s ∧ s.failed.isSome = true ∧
      ∀ t, Relation.ReflTransGen
        (fun s t => ∃ a, Step (internal fun _ => .error "no JSON") 16 64 a s t) s t →
          t.wire = s.wire := by
  obtain ⟨s, h, -, -, hfailed, -⟩ := reachable_broken (fun _ => .error "no JSON") ⟨[1, 2], {}⟩
  have hsome : s.failed.isSome = true := by rw [hfailed]; rfl
  exact ⟨s, h, hsome, (wire_is_accepted h).2 hsome⟩

end Transport

end Myna
