import Myna.Core.ConnectionItems
import Myna.Lib.History

/-!
# Myna — created before named, on the wire of an IE115 connection

The encoder returns the announcement of an item no later than the first frame that names it. The
reader sends an acknowledgement and the announcement after it one await at a time; an event that
takes the item of that commit in between goes out ahead of the announcement.

* **`CreatedFirst`** — every frame that names an item comes after the announcement of the item;
* **`Early`** — the event takes an item whose announcement is in the reader's hands;
* **`created_first_iff`** — the frames come in order exactly along the runs without such an event.
-/

namespace Myna

namespace Ie115

/-- A frame that names an item comes after the item's `created`. -/
def CreatedFirst (wire : List Sent) : Prop :=
  History.Lawful (fun past x => ∀ id, x.frame.names = some id →
    ∃ item ∈ announcedItems past, item.id = id) wire

/-- The item an event would take, if it is minted. -/
def Speech.takes (s : Speech) : Option Item :=
  match s.encoder.current with
  | some item => some item
  | none => s.encoder.queued.head?

/-- **The event overtakes**: its frame, which names an item, is sent while the reader has still the
announcement of that item in hand. -/
def Early (s : Speech) (e : Event) : Prop :=
  s.isOpen = true ∧ e.isNaming = true ∧ e.fault = none ∧ ∃ item ∈ itemsInHand s.acks,
    s.takes = some item

variable {hex : ℕ → String} {s t : Speech} {act : Option Event} {e : Event}

/-- What is in hand is the item of the utterance, where an event takes it. -/
theorem Stands.takes {s : Speech} (h : Stands hex s.utterance s.commits s.encoder)
    (hlt : s.utterance < s.commits) : s.takes = some (itemAt hex s.utterance) := by
  have hpaired := h.paired
  rw [Speech.takes]
  cases hpaired with
  | unnamed hqueued hcurrent _ _ _ =>
    rw [hcurrent, hqueued, itemsFrom_cons hlt]
    rfl
  | early _ _ _ hc _ => omega
  | named _ hcurrent _ _ _ => rw [hcurrent]

theorem mem_itemsFrom {n m : ℕ} (h : n < m) : itemAt hex n ∈ itemsFrom hex 0 m :=
  List.mem_map_of_mem (List.mem_range'_1.mpr ⟨Nat.zero_le _, by omega⟩)

theorem nodup_itemsFrom (hhex : Function.Injective hex) (m : ℕ) :
    ((itemsFrom hex 0 m).map Item.id).Nodup := by
  have hid : (itemsFrom hex 0 m).map Item.id = (List.range' 0 m).map (itemId hex) := by
    rw [itemsFrom, List.map_map, Nat.sub_zero]
    exact List.map_congr_left fun n _ => itemAt_id hex n
  rw [hid]
  refine List.Nodup.map (fun a b hab => hhex ?_) List.nodup_range'
  exact (String.append_right_inj "item_").mp hab

/-- The wire is only ever added to. -/
theorem Talk.wire_prefix (htalk : Talk hex act s t) : s.wire <+: t.wire := by
  have hemit : ∀ (e : Event) (seconds : ℚ), s.wire <+: (s.emit hex e seconds).wire := by
    intro e seconds
    rw [Speech.emit]
    split
    · exact List.prefix_rfl
    · exact List.prefix_append _ _
  cases htalk with
  | emit e seconds hhand => exact hemit e seconds
  | report e seconds hhand hnaming => exact hemit e seconds
  | refuse exc hhand =>
    rw [refuse_eq]
    exact List.prefix_append _ _
  | commit | sendAcks | sendRefusals | sendEvents => exact List.prefix_append _ _
  | silent | begin | hangUp | untold | disconnect => exact List.prefix_rfl

theorem CreatedFirst.of_prefix {l l' : List Sent} (h : CreatedFirst l') (hpre : l <+: l') :
    CreatedFirst l := by
  obtain ⟨more, rfl⟩ := hpre
  intro past x later hl
  refine h past x (later ++ more) ?_
  rw [hl, List.append_assoc, List.cons_append]

/-- The frames in the hand of an `emit` name items that are created. -/
def HandCreated (s : Speech) : Prop :=
  s.isOpen = true → ∀ o ∈ s.events, ∀ id, o.frame.names = some id →
    ∃ item ∈ announcedItems s.wire, item.id = id

/-- Frames that name nothing may be sent at any time. -/
theorem CreatedFirst.more {l more : List Sent} (h : CreatedFirst l)
    (hmore : ∀ x ∈ more, x.frame.names = none) : CreatedFirst (l ++ more) := by
  refine h.append_free fun x hx past id hid => ?_
  rw [hmore x hx] at hid
  cases hid

theorem HandCreated.more (h : HandCreated s) {more : List Sent} {events : List Outgoing}
    (hevents : ∀ o ∈ events, o ∈ s.events) (hwire : t.wire = s.wire ++ more)
    (ht : t.events = events) (hopen : t.isOpen = s.isOpen) : HandCreated t := by
  intro hisOpen o ho id hid
  rw [ht] at ho
  rw [hopen] at hisOpen
  obtain ⟨item, hitem, heq⟩ := h hisOpen o (hevents o ho) id hid
  refine ⟨item, ?_, heq⟩
  rw [hwire, announcedItems_append]
  exact List.mem_append_left _ hitem

/-- The frame of an event that does not overtake names an item that is created, or created with
it. -/
theorem named_created (hlog : Logged hex s) (hdel : Delivered s) (hopen : s.isOpen = true)
    {enc : Encoder} {out : List Frame} {frame : Frame}
    (hstands : Stands hex s.utterance s.commits enc) (hannounces : Announces hex s.encoder out enc)
    (hsilent : enc.announcements = []) (hencoded : Encoded hex s.utterance e frame enc)
    (hfault : e.fault = none) (hearly : ¬ Early s e) {id : String} (hid : frame.names = some id) :
    ∃ item ∈ announcedItems s.wire ++ out.filterMap Frame.creation, item.id = id := by
  obtain ⟨rfl, hcurrent⟩ := hencoded.names id hid
  refine ⟨itemAt hex s.utterance, ?_, itemAt_id hex _⟩
  have hlt : s.utterance < enc.minted := hstands.paired.lt_minted (by rw [hcurrent]; nofun)
  have hall : announcedItems s.wire ++ itemsInHand s.acks ++ out.filterMap Frame.creation
      = itemsFrom hex 0 enc.minted := by
    have hmore := announced_more hlog.announced hannounces
    rw [hsilent, List.filterMap_nil, List.append_nil] at hmore
    rw [hdel.announced.2 hopen, hmore]
  have hmem := @mem_itemsFrom hex _ _ hlt
  rw [← hall] at hmem
  rcases List.mem_append.mp hmem with hold | hnew
  · rcases List.mem_append.mp hold with hwire | hhand
    · exact List.mem_append_left _ hwire
    · -- it is the one in the reader's hands: the event overtakes
      refine absurd ⟨hopen, ?_, hfault, _, hhand, hlog.stands.takes (hdel.ahead ?_)⟩ hearly
      · rw [← hencoded.naming, hid]
        rfl
      · rintro hnone
        rw [hnone] at hhand
        cases hhand
  · exact List.mem_append_right _ hnew

/-- The frame of an event goes straight to the socket, if it can be written. -/
theorem sendNext_one (isOpen : Bool) {frame : Frame} (hcreation : frame.creation = none) :
    sendNext isOpen (Speech.outgoing e ([] ++ [frame]))
      = if e.fault ≠ some .unwritable ∧ isOpen = true then ([frame], []) else ([], []) := by
  rw [List.nil_append, Speech.outgoing, List.map_singleton, sendNext, hcreation]
  simp

/-- **An event that does not overtake** keeps the order. -/
theorem emit_ordered (hlog : Logged hex s) (hdel : Delivered s) (hwire : CreatedFirst s.wire)
    (hearly : ¬ Early s e) (seconds : ℚ) :
    CreatedFirst (s.emit hex e seconds).wire ∧
      (s.events = [] → HandCreated (s.emit hex e seconds)) := by
  rcases emit_eq hlog e seconds with ⟨enc, heq, -, -, -⟩ |
    ⟨enc, out, frame, heq, hstands, hannounces, hsilent, hone, hencoded⟩
  · rw [heq]
    refine ⟨hwire, fun hnone _ o ho => ?_⟩
    rw [show _ = s.events from rfl, hnone] at ho
    cases ho
  · rw [heq, Speech.sendEvents]
    cases hisOpen : s.isOpen with
    | false =>
      have hshut := (@sendNext_outgoing hex false e _ _ _ hone
        ⟨hencoded.creation, hencoded.acknowledgement⟩).2.2.2.1 rfl
      rw [hshut, List.map_nil, List.append_nil]
      exact ⟨hwire, fun _ hopen => by cases hopen⟩
    | true =>
      rcases hone with rfl | rfl
      · -- the frame itself is sent, if it can be written
        rw [sendNext_one true hencoded.creation]
        split_ifs with hsent
        · refine ⟨History.lawful_concat.mpr ⟨hwire, fun id hid => ?_⟩,
            fun _ _ => List.forall_mem_nil _⟩
          have hfault : e.fault = none := by
            have hreadable := hencoded.readable
            cases hf : e.fault with
            | none => rfl
            | some fault =>
              rw [hf] at hsent hreadable
              cases fault with
              | unreadable => exact absurd rfl hreadable
              | unwritable => exact absurd rfl hsent.1
          have hcreated := named_created hlog hdel hisOpen hstands hannounces
            hsilent hencoded hfault
            hearly hid
          rwa [List.filterMap_nil, List.append_nil] at hcreated
        · rw [List.map_nil, List.append_nil]
          exact ⟨hwire, fun _ _ => List.forall_mem_nil _⟩
      · -- the announcement goes first, the frame stays in hand
        refine ⟨hwire.more fun x hx => ?_, fun _ _ o ho id hid => ?_⟩
        · rw [List.mem_singleton.mp hx]
          rfl
        · rw [List.mem_singleton.mp ho] at hid
          refine ⟨itemAt hex s.utterance, ?_, ?_⟩
          · show _ ∈ announcedItems (s.wire ++ _)
            rw [announcedItems_append]
            exact List.mem_append_right _ List.mem_cons_self
          · rw [(hencoded.names id hid).1, itemAt_id]

/-- The frames a commit and a refusal hand over name nothing. -/
theorem names_reader (hlog : Logged hex s) :
    (∃ more, (s.commit hex).wire = s.wire ++ more ∧ ∀ x ∈ more, x.frame.names = none) ∧
      ∀ exc, ∃ more, (s.refuse hex exc).wire = s.wire ++ more ∧ ∀ x ∈ more,
        x.frame.names = none := by
  have hsub : ∀ (isOpen : Bool) (out : List Outgoing), (∀ o ∈ out, o.frame.names = none) →
      ∀ x ∈ (sendNext isOpen out).1.map (Sent.mk .reader), x.frame.names = none := by
    intro isOpen out hnone x hx
    obtain ⟨f, hf, rfl⟩ := List.mem_map.mp hx
    rcases sendNext_cases isOpen out with ⟨o, rest, rfl, -, -, hsend⟩ | hsend
    · rw [hsend] at hf
      rw [show _ = f.names from rfl, List.mem_singleton.mp hf]
      exact hnone o List.mem_cons_self
    · rw [hsend] at hf
      cases hf
  refine ⟨?_, fun exc => ?_⟩
  · obtain ⟨out, enc, hframes, hone, -, -, -⟩ := commitFrames_spec hlog.stands
    rw [Speech.commit, hframes]
    refine ⟨_, rfl, hsub _ _ fun o ho => ?_⟩
    obtain ⟨f, hf, rfl⟩ := List.mem_map.mp ho
    rcases List.mem_cons.mp hf with rfl | hout
    · rfl
    · exact (names_out hone).1 f hout
  · rw [refuse_eq]
    refine ⟨_, rfl, hsub _ _ fun o ho => ?_⟩
    obtain ⟨f, hf, rfl⟩ := List.mem_map.mp ho
    rcases List.mem_append.mp hf with hout | hframe
    · exact (names_out (hlog.stands.pending.imp_right And.left)).1 f hout
    · rw [List.mem_singleton.mp hframe]
      rfl

/-- **One step** without an event that overtakes keeps the order. -/
theorem Talk.ordered (htalk : Talk hex act s t) (hlog : Logged hex s) (hdel : Delivered s)
    (hwire : CreatedFirst s.wire) (hhand : HandCreated s) (hact : ∀ e, act = some e → ¬ Early s e) :
    CreatedFirst t.wire ∧ HandCreated t := by
  obtain ⟨hcommit, hrefuse⟩ := names_reader hlog
  cases htalk with
  | silent => exact ⟨hwire, hhand⟩
  | commit hacks =>
    obtain ⟨more, heq, hnone⟩ := hcommit
    rw [heq]
    exact ⟨hwire.more hnone, hhand.more (fun o ho => ho) heq rfl rfl⟩
  | refuse exc hacks =>
    obtain ⟨more, heq, hnone⟩ := hrefuse exc
    rw [heq]
    exact ⟨hwire.more hnone, hhand.more (fun o ho => ho) heq rfl rfl⟩
  | sendAcks hne =>
    refine ⟨hwire.more fun x hx => ?_, hhand.more (fun o ho => ho) rfl rfl rfl⟩
    obtain ⟨f, hf, rfl⟩ := List.mem_map.mp hx
    rcases sendNext_cases s.isOpen s.acks with ⟨o, rest, hacks, -, -, hsend⟩ | hsend
    · obtain ⟨-, ⟨item, hitem⟩, -⟩ := hdel.acks o (by rw [hacks]; exact List.mem_cons_self)
      rw [hsend] at hf
      rw [show _ = f.names from rfl, List.mem_singleton.mp hf, hitem]
      rfl
    · rw [hsend] at hf
      cases hf
  | sendRefusals hne =>
    refine ⟨hwire.more fun x hx => ?_, hhand.more (fun o ho => ho) rfl rfl rfl⟩
    obtain ⟨f, hf, rfl⟩ := List.mem_map.mp hx
    rcases sendNext_cases s.isOpen s.refusals with ⟨o, rest, hrefusals, -, -, hsend⟩ | hsend
    · obtain ⟨-, hbuilt⟩ := hdel.refusals o (by rw [hrefusals]; exact List.mem_cons_self)
      rw [hsend] at hf
      rw [show _ = f.names from rfl, List.mem_singleton.mp hf]
      by_contra hsome
      obtain ⟨id, hid⟩ := Option.ne_none_iff_exists'.mp hsome
      obtain ⟨i, -, hauthor, -⟩ := hlog.named _ hbuilt id hid
      cases hauthor
    · rw [hsend] at hf
      cases hf
  | sendEvents hne =>
    rcases sendNext_cases s.isOpen s.events with ⟨o, rest, hevents, -, hopen, hsend⟩ | hsend
    · have hmem : o ∈ s.events := by
        rw [hevents]
        exact List.mem_cons_self
      refine ⟨?_, ?_⟩
      · rw [Speech.sendEvents, hsend]
        exact History.lawful_concat.mpr ⟨hwire, fun id hid => hhand hopen o hmem id hid⟩
      · refine @HandCreated.more _ _ hhand _ rest (fun o' ho' => ?_) rfl ?_ rfl
        · rw [hevents]
          exact List.mem_cons_of_mem _ ho'
        · rw [Speech.sendEvents, hsend]
    · rw [Speech.sendEvents, hsend, List.map_nil, List.append_nil]
      exact ⟨hwire, fun _ => List.forall_mem_nil _⟩
  | emit e seconds hnone =>
    obtain ⟨hordered, hcreated⟩ := emit_ordered hlog hdel hwire (hact e rfl) seconds
    exact ⟨hordered, hcreated hnone⟩
  | report e seconds hnone hnaming =>
    have hearly : ¬ Early s e := by
      rintro ⟨-, htrue, -⟩
      rw [hnaming] at htrue
      cases htrue
    obtain ⟨hordered, hcreated⟩ := emit_ordered hlog hdel hwire hearly seconds
    exact ⟨hordered, hcreated hnone⟩
  | begin hcommits hnone hacks =>
    exact ⟨hwire, @HandCreated.more _ s.begin hhand [] _ (fun o ho => ho) (List.append_nil _).symm
      rfl rfl⟩
  | hangUp => exact ⟨hwire, fun hopen => by cases hopen⟩
  | untold => exact ⟨hwire, fun _ => List.forall_mem_nil _⟩
  | disconnect => exact ⟨hwire, fun hopen => by cases hopen⟩

/-- **An event that overtakes** breaks the order. -/
theorem emit_overtakes (hhex : Function.Injective hex) (hlog : Logged hex s) (hdel : Delivered s)
    (hearly : Early s e) (seconds : ℚ) : ¬ CreatedFirst (s.emit hex e seconds).wire := by
  obtain ⟨hopen, hnaming, hfault, item, hhand, htakes⟩ := hearly
  have hlt : s.utterance < s.commits := by
    refine hdel.ahead ?_
    rintro hnone
    rw [hnone] at hhand
    cases hhand
  rw [hlog.stands.takes hlt] at htakes
  obtain rfl := Option.some.inj htakes
  rcases emit_eq hlog e seconds with ⟨enc, -, -, -, hwhy⟩ |
    ⟨enc, out, frame, heq, hstands, hannounces, -, -, hencoded⟩
  · -- the event can be encoded
    rcases hwhy with hunreadable | ⟨type, hother⟩
    · rw [hfault] at hunreadable
      cases hunreadable
    · rw [Event.isNaming, hother] at hnaming
      cases hnaming
  · obtain rfl := hlog.stands.no_announcement hstands hlt hannounces
    obtain ⟨id, hid⟩ : ∃ id, frame.names = some id := by
      rw [← hencoded.naming, Option.isSome_iff_exists] at hnaming
      exact hnaming
    obtain ⟨rfl, -⟩ := hencoded.names id hid
    have hwire : (s.emit hex e seconds).wire
        = s.wire ++ [Sent.mk (.utterance s.utterance) frame] := by
      rw [heq, Speech.sendEvents]
      show s.wire ++ (sendNext s.isOpen _).1.map _ = _
      rw [sendNext_one s.isOpen hencoded.creation, if_pos ⟨by simp [hfault], hopen⟩]
      rfl
    rw [hwire]
    intro hordered
    obtain ⟨item, hitem, heqid⟩ := (History.lawful_concat.mp hordered).2 _ hid
    -- an item that is announced once is not both sent and in hand
    have hall := hdel.announced.2 hopen
    have hpre : announcedItems s.wire ++ itemsInHand s.acks
        <+: itemsFrom hex 0 s.encoder.minted := by
      rw [hall, ← hlog.announced]
      exact List.prefix_append _ _
    have hnodup : ((announcedItems s.wire ++ itemsInHand s.acks).map Item.id).Nodup :=
      (nodup_itemsFrom hhex s.encoder.minted).sublist (hpre.sublist.map Item.id)
    rw [List.map_append] at hnodup
    refine List.disjoint_of_nodup_append hnodup (List.mem_map_of_mem hitem) ?_
    rw [heqid, ← itemAt_id hex s.utterance]
    exact List.mem_map_of_mem hhand

/-- A labelled step is the adapter's `emit`. -/
theorem Talk.emitted (htalk : Talk hex (some e) s t) : ∃ seconds, t = s.emit hex e seconds := by
  cases htalk with
  | emit e seconds hhand => exact ⟨seconds, rfl⟩

/-! ## The runs -/

/-- The connections reached without an event that overtakes the announcement of its item. -/
def ReachesInOrder (hex : ℕ → String) (bytesPerSecond : ℕ) (bounds : Ingress.Bounds)
    (s : Connection) : Prop :=
  StepSystem.Reachable (fun s t => ∃ act, Step hex bytesPerSecond act s t ∧
    ∀ e, act = some e → ¬ Early s.speech e) (Connection.init bounds) s

/-- **An item is created on the wire before it is named** exactly along the runs in which no event
takes an item whose announcement is still in the reader's hands. -/
theorem created_first_iff {bytesPerSecond : ℕ} {bounds : Ingress.Bounds} {s : Connection}
    (hhex : Function.Injective hex) (h : Reaches hex bytesPerSecond bounds s) :
    CreatedFirst s.speech.wire ↔ ReachesInOrder hex bytesPerSecond bounds s := by
  constructor
  · -- the wire only grows, so a run that ends in order was in order all along
    intro hordered
    induction h with
    | refl => exact .refl
    | tail hrun hlast ih =>
      obtain ⟨act, hstep⟩ := hlast
      have hsound := Reaches.sound hrun
      obtain ⟨-, htalk⟩ := hstep.balanced hsound.balanced
      refine (ih (hordered.of_prefix htalk.wire_prefix)).tail ⟨act, hstep, ?_⟩
      rintro e rfl hearly
      obtain ⟨seconds, heq⟩ := htalk.emitted
      rw [heq] at hordered
      exact emit_overtakes hhex hsound.logged hsound.delivered hearly seconds hordered
  · intro hrun
    have hall : Sound hex s ∧ CreatedFirst s.speech.wire ∧ HandCreated s.speech := by
      refine StepSystem.reachable_induction (I := fun s => Sound hex s ∧
        CreatedFirst s.speech.wire ∧ HandCreated s.speech) hrun ?_ ?_
      · exact ⟨sound_init bounds, History.lawful_nil, fun _ => nofun⟩
      · rintro s t ⟨hsound, hwire, hhand⟩ ⟨act, hstep, hact⟩
        obtain ⟨-, htalk⟩ := hstep.balanced hsound.balanced
        exact ⟨hstep.sound hsound,
          htalk.ordered hsound.logged hsound.delivered hwire hhand hact⟩
    exact hall.2.1

theorem strokes_injective : Function.Injective strokes := by
  intro m n h
  have hlength := congrArg String.length h
  simpa [strokes] using hlength

/-- An adapter that speaks before the commit has its item created first. -/
theorem spokenEarly_ordered : CreatedFirst
    ((spokenEarly.speech.sendEvents spokenEarly.speech.events).commit strokes).wire := by
  refine (created_first_iff strokes_injective spokenEarly_reached).mpr ?_
  refine ((Relation.ReflTransGen.refl.tail ⟨_, .emits hallo rfl rfl rfl, ?_⟩).tail
    ⟨_, .sends (s := spokenEarly) (List.cons_ne_nil _ _), nofun⟩).tail ⟨_, .commit rfl rfl, nofun⟩
  rintro e - ⟨-, -, -, item, hitem, -⟩
  cases hitem

/-- The commit is acknowledged, and the reader is suspended before the announcement. -/
def acknowledgedOnly : Connection :=
  { Connection.init Ingress.tenBytes with
    speech := (Connection.init Ingress.tenBytes).speech.commit strokes
    reader := .acknowledging }

/-- An adapter that is done at that moment names an item that nobody has created. -/
theorem done_overtakes : ¬ ∀ (hex : ℕ → String) (bytesPerSecond : ℕ) (bounds : Ingress.Bounds)
    (s : Connection), Reaches hex bytesPerSecond bounds s → CreatedFirst s.speech.wire := by
  intro h
  have hreached : Reaches strokes 32000 Ingress.tenBytes _ :=
    (Relation.ReflTransGen.refl.tail ⟨_, .commit rfl rfl⟩).tail
      ⟨_, .emits (s := acknowledgedOnly) { content := .done "Hallo" [] } rfl rfl rfl⟩
  obtain ⟨item, hitem, -⟩ := h _ _ _ _ hreached [⟨.reader, .committed "item_" none⟩]
    ⟨.utterance 0, .completed "item_" 0 "Hallo" 0 []⟩ [] rfl "item_" rfl
  cases hitem

end Ie115

end Myna
