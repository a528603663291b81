import Myna.Core.Connection

/-!
# Myna — the items of an IE115 connection

The encoder pairs the `i`-th commit with the `i`-th utterance whichever of the two comes first, so
the frames of an utterance name the item its commit acknowledges. What is built in that order is not
sent in that order: the reader hands over an acknowledgement and the announcement after it in two
sends, and an event may get in between.

* **`Logged`** — what was built: the items acknowledged, announced and named;
* **`Delivered`** — what of it is on the wire, and what is still in a hand;
* **`items_agree`** — items and utterances are paired, in every reachable state;
* **`created_first_iff`** — an item is created on the wire before it is named exactly where no event
  takes an item whose announcement is still in the reader's hands.
-/

namespace Myna

namespace Ie115

/-- The items that the frames acknowledge, in order. -/
def acknowledgedItems (l : List Sent) : List Item := l.filterMap fun x => x.frame.acknowledgement

/-- The items that the frames announce, in order. -/
def announcedItems (l : List Sent) : List Item := l.filterMap fun x => x.frame.creation

/-- The items that frames in hand announce. -/
def itemsInHand (l : List Outgoing) : List Item := l.filterMap fun out => out.frame.creation

/-- **What was built**: a commit acknowledges the item of its place, the items are announced in
order and once, and what an utterance names is its item. -/
structure Logged (hex : ℕ → String) (s : Speech) : Prop where
  stands : Stands hex s.utterance s.commits s.encoder
  acknowledged : acknowledgedItems s.built = itemsFrom hex 0 s.commits
  announced : announcedItems s.built ++ s.encoder.announcements.filterMap Frame.creation
    = itemsFrom hex 0 s.encoder.minted
  named : ∀ x ∈ s.built, ∀ id, x.frame.names = some id →
    ∃ i ≤ s.utterance, x.author = .utterance i ∧ id = itemId hex i

/-- A list that keeps up with another for as long as the connection is open. -/
def Follows (isOpen : Bool) (l l' : List Item) : Prop := l <+: l' ∧ (isOpen = true → l = l')

/-- A frame that neither announces nor acknowledges. -/
def Frame.IsPlain (frame : Frame) : Prop := frame.creation = none ∧ frame.acknowledgement = none

/-- **What was sent, and what is in hand.** The wire follows what was built; only the reader's
acknowledgement leaves an announcement in hand, of a commit the adapter has not been told of. -/
structure Delivered (s : Speech) : Prop where
  wire : ∀ x ∈ s.wire, x ∈ s.built
  acks : ∀ out ∈ s.acks, out.writable = true ∧ (∃ item, out.frame = itemCreated item) ∧
    Sent.mk .reader out.frame ∈ s.built
  refusals : ∀ out ∈ s.refusals, out.frame.IsPlain ∧ Sent.mk .reader out.frame ∈ s.built
  events : ∀ out ∈ s.events, out.frame.IsPlain ∧
    Sent.mk (.utterance s.utterance) out.frame ∈ s.built
  ahead : s.acks ≠ [] → s.utterance < s.commits
  acknowledged : Follows s.isOpen (acknowledgedItems s.wire) (acknowledgedItems s.built)
  announced : Follows s.isOpen (announcedItems s.wire ++ itemsInHand s.acks)
    (announcedItems s.built)

variable {hex : ℕ → String} {s t : Speech} {act : Option Event}

@[simp] theorem acknowledgedItems_append (l l' : List Sent) :
    acknowledgedItems (l ++ l') = acknowledgedItems l ++ acknowledgedItems l' :=
      List.filterMap_append

@[simp] theorem announcedItems_append (l l' : List Sent) :
    announcedItems (l ++ l') = announcedItems l ++ announcedItems l' := List.filterMap_append

@[simp] theorem acknowledgedItems_map (author : Author) (frames : List Frame) :
    acknowledgedItems (frames.map (Sent.mk author)) = frames.filterMap Frame.acknowledgement :=
  List.filterMap_map

@[simp] theorem announcedItems_map (author : Author) (frames : List Frame) :
    announcedItems (frames.map (Sent.mk author)) = frames.filterMap Frame.creation :=
      List.filterMap_map

theorem acknowledgement_cons (item : Item) (out : List Frame) :
    (itemCommitted item :: out).filterMap Frame.acknowledgement
      = item :: out.filterMap Frame.acknowledgement := rfl

theorem filterMap_creations (m n : ℕ) :
    (creations hex m n).filterMap Frame.creation = itemsFrom hex m n := by
  rw [creations, List.filterMap_map]
  exact List.filterMap_some

/-- The announcements of one entry point go on where the last one stopped. -/
theorem announced_more {enc enc' : Encoder} {out : List Frame} {items : List Item}
    (h : items ++ enc.announcements.filterMap Frame.creation = itemsFrom hex 0 enc.minted)
    (hout : Announces hex enc out enc') :
    items ++ out.filterMap Frame.creation ++ enc'.announcements.filterMap Frame.creation
      = itemsFrom hex 0 enc'.minted := by
  obtain ⟨hmono, hannounces⟩ := hout
  have hitems := congrArg (List.filterMap Frame.creation) hannounces
  rw [List.filterMap_append, List.filterMap_append, filterMap_creations] at hitems
  rw [List.append_assoc, hitems, ← List.append_assoc, h, itemsFrom_append (Nat.zero_le _) hmono]

/-- What an `emit` hands over, and what it leaves. -/
theorem emit_eq (h : Logged hex s) (e : Event) (seconds : ℚ) :
    (∃ enc, s.emit hex e seconds = { s with encoder := enc } ∧
      Stands hex s.utterance s.commits enc ∧ Announces hex s.encoder [] enc ∧
      (e.fault = some .unreadable ∨ ∃ type, e.content = .other type)) ∨
    ∃ enc out frame, s.emit hex e seconds =
        { s with
          encoder := enc
          built := s.built ++ (out ++ [frame]).map (Sent.mk (.utterance s.utterance)) }.sendEvents
            (Speech.outgoing e (out ++ [frame])) ∧
      Stands hex s.utterance s.commits enc ∧ Announces hex s.encoder out enc ∧
      enc.announcements = [] ∧ (out = [] ∨ out = [itemCreated (itemAt hex s.utterance)]) ∧
      Encoded hex s.utterance e frame enc := by
  obtain ⟨result, enc, hframes, hstands, hnone, hsome⟩ := frames_spec h.stands e seconds
  cases result with
  | none =>
    obtain ⟨hannounces, hwhy⟩ := hnone rfl
    exact .inl ⟨enc, by rw [Speech.emit, hframes], hstands, hannounces, hwhy⟩
  | some frames =>
    obtain ⟨out, frame, rfl, hone, hannounces, hsilent, hencoded⟩ := hsome frames rfl
    exact .inr ⟨enc, out, frame, by rw [Speech.emit, hframes], hstands, hannounces, hsilent, hone,
      hencoded⟩

/-- The frame of a refusal. -/
def Speech.refusal (exc : String) : Frame :=
  .error "invalid_request_error" "invalid_parameter" ("bad client frame: " ++ exc)

/-- What a refusal hands over: the announcements that wait, and an `error`. -/
theorem refuse_eq (exc : String) :
    s.refuse hex exc = { s with
      encoder := { s.encoder with announcements := [] }
      built := s.built ++ (s.encoder.announcements ++ [Speech.refusal exc]).map
        (Sent.mk .reader) }.sendRefusals
          (Speech.outgoing (Speech.badClientFrame exc)
            (s.encoder.announcements ++ [Speech.refusal exc])) := rfl

/-! ## What was built -/

theorem names_out {out : List Frame} {i : ℕ} (h : out = [] ∨ out = [itemCreated (itemAt hex i)]) :
    (∀ f ∈ out, f.names = none) ∧ out.filterMap Frame.acknowledgement = [] := by
  rcases h with rfl | rfl
  · exact ⟨nofun, rfl⟩
  · refine ⟨fun f hf => ?_, rfl⟩
    rw [List.mem_singleton.mp hf]
    rfl

theorem Logged.commit (h : Logged hex s) : Logged hex (s.commit hex) := by
  obtain ⟨out, enc, hframes, hone, hstands, hsilent, hannounces⟩ := commitFrames_spec h.stands
  have hcommit : s.commit hex = ({ s with
      encoder := enc
      commits := s.commits + 1
      built := s.built ++ (itemCommitted (itemAt hex s.commits) :: out).map
        (Sent.mk .reader) } : Speech).sendAcks
          ((itemCommitted (itemAt hex s.commits) :: out).map ({ frame := · })) := by
    rw [Speech.commit, hframes]
  obtain ⟨hnames, hacks⟩ := names_out hone
  rw [hcommit]
  refine ⟨hstands, ?_, ?_, ?_⟩
  · show acknowledgedItems (s.built ++ _) = itemsFrom hex 0 (s.commits + 1)
    rw [acknowledgedItems_append, acknowledgedItems_map, h.acknowledged,
      itemsFrom_concat (Nat.zero_le _), acknowledgement_cons, hacks]
  · show announcedItems (s.built ++ _) ++ enc.announcements.filterMap Frame.creation = _
    rw [announcedItems_append, announcedItems_map]
    exact @announced_more hex _ _ out _ h.announced hannounces
  · intro x hx id hid
    rcases List.mem_append.mp hx with hold | hnew
    · exact h.named x hold id hid
    · obtain ⟨frame, hframe, rfl⟩ := List.mem_map.mp hnew
      rcases List.mem_cons.mp hframe with rfl | hout
      · cases hid
      · rw [show _ = frame.names from rfl, hnames frame hout] at hid
        cases hid

/-- Frames of one author, the announcements of the encoder and one more, go to what was built. -/
theorem Logged.build (h : Logged hex s) {enc : Encoder} {out : List Frame} {frame : Frame}
    {author : Author} (hstands : Stands hex s.utterance s.commits enc)
    (hannounces : Announces hex s.encoder out enc)
    (hone : out = [] ∨ out = [itemCreated (itemAt hex s.utterance)]) (hplain : frame.IsPlain)
    (hnames : ∀ id, frame.names = some id →
      author = .utterance s.utterance ∧ id = itemId hex s.utterance) {t : Speech}
    (hutterance : t.utterance = s.utterance) (hcommits : t.commits = s.commits)
    (henc : t.encoder = enc)
    (hbuilt : t.built = s.built ++ (out ++ [frame]).map (Sent.mk author)) : Logged hex t := by
  obtain ⟨hsilent, hacks⟩ := names_out hone
  refine ⟨?_, ?_, ?_, ?_⟩
  · rw [hutterance, hcommits, henc]
    exact hstands
  · rw [hbuilt, hcommits, acknowledgedItems_append, acknowledgedItems_map, List.filterMap_append,
      hacks, h.acknowledged, List.filterMap_cons_none hplain.2]
    exact List.append_nil _
  · rw [hbuilt, henc, announcedItems_append, announcedItems_map, List.filterMap_append,
      List.filterMap_cons_none hplain.1, List.filterMap_nil, List.append_nil]
    exact announced_more h.announced hannounces
  · intro x hx id hid
    rw [hbuilt] at hx
    rw [hutterance]
    rcases List.mem_append.mp hx with hold | hnew
    · exact h.named x hold id hid
    · obtain ⟨f, hf, rfl⟩ := List.mem_map.mp hnew
      rcases List.mem_append.mp hf with hout | hframe
      · rw [show _ = f.names from rfl, hsilent f hout] at hid
        cases hid
      · obtain rfl := List.mem_singleton.mp hframe
        obtain ⟨hauthor, heq⟩ := hnames id hid
        exact ⟨s.utterance, le_rfl, hauthor, heq⟩

theorem Logged.emit (h : Logged hex s) (e : Event) (seconds : ℚ) :
    Logged hex (s.emit hex e seconds) := by
  rcases emit_eq h e seconds with ⟨enc, heq, hstands, hannounces, -⟩ |
    ⟨enc, out, frame, heq, hstands, hannounces, -, hone, hencoded⟩
  · rw [heq]
    refine ⟨hstands, h.acknowledged, ?_, h.named⟩
    have hmore := announced_more h.announced hannounces
    rwa [List.filterMap_nil, List.append_nil] at hmore
  · rw [heq]
    exact h.build hstands hannounces hone ⟨hencoded.creation, hencoded.acknowledgement⟩
      (fun id hid => ⟨rfl, (hencoded.names id hid).1⟩) rfl rfl rfl rfl

/-- The encoder after a refusal has nothing left to announce. -/
theorem Logged.refuse (h : Logged hex s) (exc : String) : Logged hex (s.refuse hex exc) := by
  rw [refuse_eq]
  have hannounces : Announces hex s.encoder s.encoder.announcements
      { s.encoder with announcements := [] } := by
    refine ⟨le_rfl, ?_⟩
    simp [creations]
  exact h.build h.stands.announce hannounces (h.stands.pending.imp_right And.left) ⟨rfl, rfl⟩
    (fun id hid => by cases hid) rfl rfl rfl rfl

/-- The next utterance. -/
theorem Logged.begin (h : Logged hex s) (hcommit : s.utterance < s.commits) :
    Logged hex s.begin := by
  obtain ⟨hstands, hannouncements, hminted⟩ := beginUtterance_spec h.stands hcommit
  refine ⟨hstands, h.acknowledged, ?_, ?_⟩
  · show announcedItems s.built ++ s.encoder.beginUtterance.announcements.filterMap _
      = itemsFrom hex 0 s.encoder.beginUtterance.minted
    rw [hannouncements, hminted]
    exact h.announced
  · intro x hx id hid
    obtain ⟨i, hi, hauthor, heq⟩ := h.named x hx id hid
    exact ⟨i, hi.trans (Nat.le_succ _), hauthor, heq⟩

/-- **What any step leaves built.** -/
theorem Talk.logged (htalk : Talk hex act s t) (h : Logged hex s) : Logged hex t := by
  cases htalk with
  | silent => exact h
  | commit hhand => exact h.commit
  | refuse exc hhand => exact h.refuse exc
  | emit e seconds hhand => exact h.emit e seconds
  | report e seconds hhand hnaming => exact h.emit e seconds
  | begin hcommit hhand hacks => exact h.begin hcommit
  | sendAcks | sendRefusals | sendEvents | hangUp | untold | disconnect =>
    exact ⟨h.stands, h.acknowledged, h.announced, h.named⟩

/-! ## What was sent -/

theorem Follows.refl (isOpen : Bool) (l : List Item) : Follows isOpen l l :=
  ⟨List.prefix_rfl, fun _ => rfl⟩

/-- What is built is sent, or the connection is closed. -/
theorem Follows.more {l l' more sent : List Item} {isOpen : Bool} (h : Follows isOpen l l')
    (hopen : isOpen = true → sent = more) (hclosed : isOpen = false → sent = []) :
    Follows isOpen (l ++ sent) (l' ++ more) := by
  cases isOpen with
  | true =>
    rw [h.2 rfl, hopen rfl]
    exact .refl true _
  | false =>
    rw [hclosed rfl, List.append_nil]
    exact ⟨h.1.trans (List.prefix_append _ _), nofun⟩

theorem Follows.close {l l' : List Item} {isOpen : Bool} (h : Follows isOpen l l') :
    Follows false l l' := ⟨h.1, nofun⟩

/-- A send takes the first frame from the hand to the socket, or leaves nothing in hand. -/
theorem sendNext_cases (isOpen : Bool) (out : List Outgoing) :
    (∃ o rest, out = o :: rest ∧ o.writable = true ∧ isOpen = true ∧
      sendNext isOpen out = ([o.frame], rest)) ∨ sendNext isOpen out = ([], []) := by
  cases out with
  | nil => exact .inr rfl
  | cons o rest =>
    rw [sendNext]
    split_ifs with hsent
    · obtain ⟨hwritable, hopen⟩ := Bool.and_eq_true_iff.mp hsent
      exact .inl ⟨o, rest, rfl, hwritable, hopen, rfl⟩
    · exact .inr rfl

@[simp] theorem itemsInHand_cons (o : Outgoing) (rest : List Outgoing) :
    itemsInHand (o :: rest) = o.frame.creation.toList ++ itemsInHand rest := by
  rw [itemsInHand, List.filterMap_cons]
  cases o.frame.creation <;> rfl

/-- **One send** of frames that neither announce nor acknowledge moves the wire along. -/
theorem Delivered.send (h : Delivered s) {author : Author} {frame : Frame} (hplain : frame.IsPlain)
    (hbuilt : Sent.mk author frame ∈ s.built) {refusals events : List Outgoing}
    (hrefusals : ∀ o ∈ refusals, o ∈ s.refusals) (hevents : ∀ o ∈ events, o ∈ s.events) :
    Delivered { s with
      wire := s.wire ++ [Sent.mk author frame], refusals := refusals, events := events } := by
  refine ⟨?_, h.acks, fun o ho => h.refusals o (hrefusals o ho),
    fun o ho => h.events o (hevents o ho), h.ahead, ?_, ?_⟩
  · intro x hx
    rcases List.mem_append.mp hx with hold | hnew
    · exact h.wire x hold
    · rw [List.mem_singleton.mp hnew]
      exact hbuilt
  · show Follows s.isOpen (acknowledgedItems (s.wire ++ [_])) _
    rw [acknowledgedItems_append, show acknowledgedItems [Sent.mk author frame] = [] from
      List.filterMap_cons_none hplain.2, List.append_nil]
    exact h.acknowledged
  · show Follows s.isOpen (announcedItems (s.wire ++ [_]) ++ _) _
    rw [announcedItems_append, show announcedItems [Sent.mk author frame] = [] from
      List.filterMap_cons_none hplain.1, List.append_nil]
    exact h.announced

theorem Delivered.sendRefusals (h : Delivered s) : Delivered (s.sendRefusals s.refusals) := by
  rw [Speech.sendRefusals]
  rcases sendNext_cases s.isOpen s.refusals with ⟨o, rest, hhand, -, -, heq⟩ | heq
  · rw [heq]
    have hmem : o ∈ s.refusals := by
      rw [hhand]
      exact List.mem_cons_self
    obtain ⟨hplain, hbuilt⟩ := h.refusals o hmem
    refine h.send hplain hbuilt (fun o' ho' => ?_) fun o' ho' => ho'
    rw [hhand]
    exact List.mem_cons_of_mem _ ho'
  · rw [heq, List.map_nil, List.append_nil]
    exact ⟨h.wire, h.acks, List.forall_mem_nil _, h.events, h.ahead, h.acknowledged, h.announced⟩

theorem Delivered.sendEvents (h : Delivered s) : Delivered (s.sendEvents s.events) := by
  rw [Speech.sendEvents]
  rcases sendNext_cases s.isOpen s.events with ⟨o, rest, hhand, -, -, heq⟩ | heq
  · rw [heq]
    have hmem : o ∈ s.events := by
      rw [hhand]
      exact List.mem_cons_self
    obtain ⟨hplain, hbuilt⟩ := h.events o hmem
    refine h.send hplain hbuilt (fun o' ho' => ho') fun o' ho' => ?_
    rw [hhand]
    exact List.mem_cons_of_mem _ ho'
  · rw [heq, List.map_nil, List.append_nil]
    exact ⟨h.wire, h.acks, h.refusals, List.forall_mem_nil _, h.ahead, h.acknowledged, h.announced⟩

/-- The announcement after an acknowledgement goes from the hand to the socket. -/
theorem Delivered.sendAcks (h : Delivered s) : Delivered (s.sendAcks s.acks) := by
  rw [Speech.sendAcks]
  rcases sendNext_cases s.isOpen s.acks with ⟨o, rest, hhand, -, -, heq⟩ | heq
  · rw [heq]
    have hmem : o ∈ s.acks := by
      rw [hhand]
      exact List.mem_cons_self
    have hsub : ∀ o' ∈ rest, o' ∈ s.acks := by
      intro o' ho'
      rw [hhand]
      exact List.mem_cons_of_mem _ ho'
    obtain ⟨-, ⟨item, hitem⟩, hbuilt⟩ := h.acks o hmem
    refine ⟨?_, fun o' ho' => h.acks o' (hsub o' ho'), h.refusals, h.events,
      fun _ => h.ahead (List.ne_nil_of_mem hmem), ?_, ?_⟩
    · intro x hx
      rcases List.mem_append.mp hx with hold | hnew
      · exact h.wire x hold
      · rw [List.mem_singleton.mp hnew]
        exact hbuilt
    · have hold := h.acknowledged
      show Follows s.isOpen (acknowledgedItems (s.wire ++ [_])) _
      rw [hitem, acknowledgedItems_append,
        show acknowledgedItems [Sent.mk .reader (itemCreated item)]
        = [] from rfl, List.append_nil]
      exact hold
    · have hold := h.announced
      show Follows s.isOpen (announcedItems (s.wire ++ [_]) ++ itemsInHand rest) _
      rw [hhand, itemsInHand_cons, hitem, ← List.append_assoc] at hold
      rw [hitem, announcedItems_append]
      simpa [announcedItems] using hold
  · rw [heq, List.map_nil, List.append_nil]
    refine ⟨h.wire, List.forall_mem_nil _, h.refusals, h.events, fun hne => absurd rfl hne,
      h.acknowledged, ?_⟩
    show Follows s.isOpen (announcedItems s.wire ++ []) _
    have hold := h.announced
    cases hhand : s.acks with
    | nil =>
      rw [hhand] at hold
      exact hold
    | cons o rest =>
      -- a send that fails is one on a closed connection
      have hclosed : s.isOpen = false := by
        obtain ⟨hwritable, -⟩ := h.acks o (by rw [hhand]; exact List.mem_cons_self)
        rw [hhand, sendNext, hwritable, Bool.true_and] at heq
        by_contra hopen
        rw [Bool.not_eq_false] at hopen
        rw [if_pos hopen] at heq
        cases heq
      rw [hclosed, List.append_nil]
      exact ⟨(List.prefix_append _ _).trans hold.1, fun hopen => absurd hopen Bool.false_ne_true⟩

/-- Of the announcement that may wait and the frame after it, the first is sent. -/
theorem sendNext_outgoing {isOpen : Bool} {e : Event} {out : List Frame} {frame : Frame} {i : ℕ}
    (hone : out = [] ∨ out = [itemCreated (itemAt hex i)]) (hplain : frame.IsPlain) :
    (∀ f ∈ (sendNext isOpen (Speech.outgoing e (out ++ [frame]))).1, f ∈ out ++ [frame]) ∧
      (∀ o ∈ (sendNext isOpen (Speech.outgoing e (out ++ [frame]))).2, o.frame = frame) ∧
      (isOpen = true → (sendNext isOpen (Speech.outgoing e (out ++ [frame]))).1.filterMap
        Frame.creation = out.filterMap Frame.creation) ∧
      (isOpen = false → (sendNext isOpen (Speech.outgoing e (out ++ [frame]))).1 = []) ∧
      (sendNext isOpen (Speech.outgoing e (out ++ [frame]))).1.filterMap Frame.acknowledgement
        = [] := by
  obtain ⟨hcreation, hacknowledgement⟩ := hplain
  rcases hone with rfl | rfl
  · rw [List.nil_append, Speech.outgoing, List.map_cons, List.map_nil, sendNext]
    split_ifs with hsent
    · refine ⟨fun f hf => hf, nofun, fun _ => ?_, fun hclosed => ?_, ?_⟩
      · simp [hcreation]
      · rw [hclosed, Bool.and_false] at hsent
        cases hsent
      · simp [hacknowledgement]
    · exact ⟨nofun, nofun, fun _ => rfl, fun _ => rfl, rfl⟩
  · have hfirst : (⟨itemCreated (itemAt hex i), (itemCreated (itemAt hex i)).creation.isSome ||
        e.fault != some .unwritable⟩ : Outgoing) = ⟨itemCreated (itemAt hex i), true⟩ := rfl
    rw [List.singleton_append, Speech.outgoing, List.map_cons, List.map_cons, List.map_nil, hfirst,
      sendNext]
    cases isOpen with
    | true =>
      refine ⟨fun f hf => ?_, fun o ho => ?_, fun _ => rfl, nofun, rfl⟩
      · rw [List.mem_singleton.mp hf]
        exact List.mem_cons_self
      · rw [List.mem_singleton.mp ho]
    | false => exact ⟨nofun, nofun, nofun, fun _ => rfl, rfl⟩

/-- **Handing over** the frames of an event, or of a refusal. -/
theorem Delivered.handOver (h : Delivered s) {author : Author} {e : Event} {enc : Encoder}
    {out : List Frame} {frame : Frame} {i : ℕ}
    (hone : out = [] ∨ out = [itemCreated (itemAt hex i)]) (hplain : frame.IsPlain)
    (hempty : out = [] ∨ s.acks = []) {refusals events : List Outgoing}
    (hrefusals : ∀ o ∈ refusals, o ∈ s.refusals ∨ author = .reader ∧
      o ∈ (sendNext s.isOpen (Speech.outgoing e (out ++ [frame]))).2)
    (hevents : ∀ o ∈ events, o ∈ s.events ∨ author = .utterance s.utterance ∧
      o ∈ (sendNext s.isOpen (Speech.outgoing e (out ++ [frame]))).2) :
    Delivered { s with
      encoder := enc
      wire := s.wire ++ (sendNext s.isOpen (Speech.outgoing e (out ++ [frame]))).1.map
        (Sent.mk author)
      built := s.built ++ (out ++ [frame]).map (Sent.mk author)
      refusals := refusals
      events := events } := by
  obtain ⟨hsub, hrest, hopen, hclosed, hacks⟩ :=
    @sendNext_outgoing hex s.isOpen e _ _ _ hone hplain
  have hframe : Sent.mk author frame ∈ s.built ++ (out ++ [frame]).map (Sent.mk author) :=
    List.mem_append_right _ (List.mem_map_of_mem (List.mem_append_right _ List.mem_cons_self))
  refine ⟨?_, ?_, ?_, ?_, h.ahead, ?_, ?_⟩
  · intro x hx
    rcases List.mem_append.mp hx with hold | hnew
    · exact List.mem_append_left _ (h.wire x hold)
    · obtain ⟨f, hf, rfl⟩ := List.mem_map.mp hnew
      exact List.mem_append_right _ (List.mem_map_of_mem (hsub f hf))
  · intro o ho
    obtain ⟨hwritable, hitem, hbuilt⟩ := h.acks o ho
    exact ⟨hwritable, hitem, List.mem_append_left _ hbuilt⟩
  · intro o ho
    rcases hrefusals o ho with hold | ⟨rfl, hnew⟩
    · obtain ⟨hpl, hbuilt⟩ := h.refusals o hold
      exact ⟨hpl, List.mem_append_left _ hbuilt⟩
    · rw [hrest o hnew]
      exact ⟨hplain, hframe⟩
  · intro o ho
    rcases hevents o ho with hold | ⟨rfl, hnew⟩
    · obtain ⟨hpl, hbuilt⟩ := h.events o hold
      exact ⟨hpl, List.mem_append_left _ hbuilt⟩
    · rw [hrest o hnew]
      exact ⟨hplain, hframe⟩
  · show Follows s.isOpen (acknowledgedItems (s.wire ++ _)) (acknowledgedItems (s.built ++ _))
    have hnone : (out ++ [frame]).filterMap Frame.acknowledgement = [] := by
      rw [List.filterMap_append, (names_out hone).2, List.filterMap_cons_none hplain.2]
      rfl
    rw [acknowledgedItems_append, acknowledgedItems_append, acknowledgedItems_map,
      acknowledgedItems_map, hacks, hnone]
    exact h.acknowledged.more (fun _ => rfl) fun _ => rfl
  · show Follows s.isOpen (announcedItems (s.wire ++ _) ++ itemsInHand s.acks)
      (announcedItems (s.built ++ _))
    have hcreations : (out ++ [frame]).filterMap Frame.creation
        = out.filterMap Frame.creation := by
      rw [List.filterMap_append, List.filterMap_cons_none hplain.1, List.filterMap_nil,
        List.append_nil]
    have hold := h.announced
    rw [announcedItems_append, announcedItems_append, announcedItems_map, announcedItems_map,
      hcreations]
    rcases hempty with rfl | hnone
    · -- nothing is announced
      have hsent : (sendNext s.isOpen (Speech.outgoing e ([] ++ [frame]))).1.filterMap
          Frame.creation = [] := by
        cases hisOpen : s.isOpen with
        | true =>
          rw [hisOpen] at hopen
          exact hopen rfl
        | false =>
          rw [hisOpen] at hclosed
          rw [hclosed rfl]
          rfl
      rw [hsent, List.append_nil, List.filterMap_nil, List.append_nil]
      exact hold
    · rw [hnone] at hold ⊢
      have hbare : Follows s.isOpen (announcedItems s.wire) (announcedItems s.built) := by
        have hnil : announcedItems s.wire ++ itemsInHand [] = announcedItems s.wire :=
          List.append_nil _
        rwa [hnil] at hold
      rw [show itemsInHand [] = [] from rfl, List.append_nil]
      exact hbare.more hopen fun hshut => by rw [hclosed hshut]; rfl

/-- While an acknowledgement is in hand, no event mints an item. -/
theorem Stands.no_announcement {i c : ℕ} {enc enc' : Encoder} {out : List Frame}
    (h : Stands hex i c enc) (h' : Stands hex i c enc') (hlt : i < c)
    (hannounces : Announces hex enc out enc') : out = [] := by
  have hsilent : enc.announcements = [] := by
    refine h.silent ?_
    have hpaired := h.paired
    cases hpaired with
    | unnamed _ _ huncommitted _ _ => exact huncommitted
    | early _ _ _ hc _ => omega
    | named _ _ huncommitted _ _ => exact huncommitted
  obtain ⟨-, hout⟩ := hannounces
  rw [hsilent, h.paired.minted_eq hlt, h'.paired.minted_eq hlt, creations, itemsFrom_self] at hout
  exact (List.append_eq_nil_iff.mp hout).1

theorem Delivered.emit (h : Delivered s) (hlog : Logged hex s) (e : Event) (seconds : ℚ) :
    Delivered (s.emit hex e seconds) := by
  rcases emit_eq hlog e seconds with ⟨enc, heq, -, -, -⟩ |
    ⟨enc, out, frame, heq, hstands, hannounces, -, hone, hencoded⟩
  · rw [heq]
    exact ⟨h.wire, h.acks, h.refusals, h.events, h.ahead, h.acknowledged, h.announced⟩
  · have hempty : out = [] ∨ s.acks = [] := by
      by_cases hacks : s.acks = []
      · exact .inr hacks
      · exact .inl (hlog.stands.no_announcement hstands (h.ahead hacks) hannounces)
    rw [heq]
    exact h.handOver hone ⟨hencoded.creation, hencoded.acknowledgement⟩ hempty
      (fun o ho => .inl ho) fun o ho => .inr ⟨rfl, ho⟩

theorem Delivered.refuse (h : Delivered s) (hlog : Logged hex s) (exc : String)
    (hhand : s.acks = []) : Delivered (s.refuse hex exc) := by
  rw [refuse_eq]
  exact h.handOver (hlog.stands.pending.imp_right And.left) ⟨rfl, rfl⟩ (.inr hhand)
    (fun o ho => .inr ⟨rfl, ho⟩) fun o ho => .inl ho

/-- A commit sends its acknowledgement, and has the announcement in hand. -/
theorem Delivered.commit (h : Delivered s) (hlog : Logged hex s) (hhand : s.acks = []) :
    Delivered (s.commit hex) := by
  obtain ⟨out, enc, hframes, hone, -, -, -⟩ := commitFrames_spec hlog.stands
  obtain ⟨hnames, hacks⟩ := names_out hone
  have hle := hlog.stands.paired.le
  have hold := h.announced
  rw [hhand, show itemsInHand [] = [] from rfl, List.append_nil] at hold
  rw [Speech.commit, hframes]
  dsimp only
  rw [Speech.sendAcks]
  have hmem : ∀ f ∈ itemCommitted (itemAt hex s.commits) :: out,
      Sent.mk .reader f ∈ s.built ++ (itemCommitted (itemAt hex s.commits) :: out).map
        (Sent.mk .reader) :=
    fun f hf => List.mem_append_right _ (List.mem_map_of_mem hf)
  have hkeep : ∀ {author frame}, Sent.mk author frame ∈ s.built →
      Sent.mk author frame ∈ s.built ++ (itemCommitted (itemAt hex s.commits) :: out).map
        (Sent.mk .reader) :=
    fun hbuilt => List.mem_append_left _ hbuilt
  have hackItems : (itemCommitted (itemAt hex s.commits) :: out).filterMap Frame.acknowledgement
      = [itemAt hex s.commits] := by
    rw [acknowledgement_cons, hacks]
  have hcreated : (itemCommitted (itemAt hex s.commits) :: out).filterMap Frame.creation
        = out.filterMap Frame.creation := rfl
  cases hisOpen : s.isOpen with
  | true =>
    have hsend : sendNext true ((itemCommitted (itemAt hex s.commits) :: out).map ({ frame := · }))
          = ([itemCommitted (itemAt hex s.commits)],
            out.map ({ frame := · })) := rfl
    rw [hsend]
    refine ⟨?_, ?_, fun o ho => ⟨(h.refusals o ho).1, hkeep (h.refusals o ho).2⟩,
      fun o ho => ⟨(h.events o ho).1, hkeep (h.events o ho).2⟩, fun _ =>
        Nat.lt_succ_of_le hle, ?_, ?_⟩
    · intro x hx
      rcases List.mem_append.mp hx with hwire | hnew
      · exact List.mem_append_left _ (h.wire x hwire)
      · rw [List.mem_singleton.mp hnew]
        exact hmem _ List.mem_cons_self
    · intro o ho
      obtain ⟨f, hf, rfl⟩ := List.mem_map.mp ho
      refine ⟨rfl, ?_, hmem f (List.mem_cons_of_mem _ hf)⟩
      rcases hone with rfl | rfl
      · cases hf
      · exact ⟨_, List.mem_singleton.mp hf⟩
    · show Follows true (acknowledgedItems (s.wire ++ _)) (acknowledgedItems (s.built ++ _))
      rw [acknowledgedItems_append, acknowledgedItems_append, acknowledgedItems_map,
        acknowledgedItems_map, hackItems, ← hisOpen]
      exact h.acknowledged.more (fun _ => rfl) fun hclosed => by
        rw [hisOpen] at hclosed
        cases hclosed
    · show Follows true (announcedItems (s.wire ++ _) ++ itemsInHand (out.map _))
        (announcedItems (s.built ++ _))
      have hinHand : itemsInHand (out.map ({ frame := · })) = out.filterMap Frame.creation := by
        rw [itemsInHand, List.filterMap_map]
        rfl
      rw [announcedItems_append, announcedItems_append, announcedItems_map, announcedItems_map,
        hcreated, hinHand, show [itemCommitted (itemAt hex s.commits)].filterMap Frame.creation = []
        from rfl, List.append_nil, ← hisOpen]
      exact hold.more (fun _ => rfl) fun hclosed => by rw [hisOpen] at hclosed; cases hclosed
  | false =>
    have hsend : sendNext false ((itemCommitted (itemAt hex s.commits) :: out).map
        ({ frame := · })) = ([], []) := rfl
    rw [hsend]
    refine ⟨?_, List.forall_mem_nil _,
      fun o ho => ⟨(h.refusals o ho).1, hkeep (h.refusals o ho).2⟩,
      fun o ho => ⟨(h.events o ho).1, hkeep (h.events o ho).2⟩, fun hne => absurd rfl hne, ?_, ?_⟩
    · intro x hx
      rw [List.map_nil, List.append_nil] at hx
      exact List.mem_append_left _ (h.wire x hx)
    · show Follows false (acknowledgedItems (s.wire ++ [])) (acknowledgedItems (s.built ++ _))
      rw [acknowledgedItems_append, acknowledgedItems_append, ← hisOpen]
      exact h.acknowledged.more (fun hopen => by rw [hisOpen] at hopen; cases hopen) fun _ => rfl
    · show Follows false (announcedItems (s.wire ++ []) ++ itemsInHand [])
        (announcedItems (s.built ++ _))
      rw [announcedItems_append, announcedItems_append, show itemsInHand [] = [] from rfl,
        List.append_nil, ← hisOpen]
      exact hold.more (fun hopen => by rw [hisOpen] at hopen; cases hopen) fun _ => rfl

/-- **What any step leaves delivered.** -/
theorem Talk.delivered (htalk : Talk hex act s t) (hlog : Logged hex s) (h : Delivered s) :
    Delivered t := by
  cases htalk with
  | silent => exact h
  | commit hhand => exact h.commit hlog hhand
  | refuse exc hhand => exact h.refuse hlog exc hhand
  | sendAcks hhand => exact h.sendAcks
  | sendRefusals hhand => exact h.sendRefusals
  | emit e seconds hhand => exact h.emit hlog e seconds
  | report e seconds hhand hnaming => exact h.emit hlog e seconds
  | sendEvents hhand => exact h.sendEvents
  | begin hcommit hhand hacks =>
    refine ⟨h.wire, h.acks, h.refusals, ?_, hacks, h.acknowledged, h.announced⟩
    intro o ho
    rw [show s.begin.events = s.events from rfl, hhand] at ho
    cases ho
  | hangUp =>
    refine ⟨h.wire, nofun, nofun, h.events, fun hne => absurd rfl hne, h.acknowledged.close, ?_⟩
    show Follows false (announcedItems s.wire ++ []) _
    rw [List.append_nil]
    exact ⟨(List.prefix_append _ _).trans h.announced.1, nofun⟩
  | untold => exact ⟨h.wire, h.acks, h.refusals, nofun, h.ahead, h.acknowledged, h.announced⟩
  | disconnect =>
    exact ⟨h.wire, h.acks, h.refusals, h.events, h.ahead, h.acknowledged.close, h.announced.close⟩

/-! ## The runs -/

/-- The connections that any interleaving of the two tasks reaches. -/
def Reaches (hex : ℕ → String) (bytesPerSecond : ℕ) (bounds : Ingress.Bounds) (s : Connection) :
    Prop :=
  StepSystem.Reachable (fun s t => ∃ act, Step hex bytesPerSecond act s t)
    (Connection.init bounds) s

/-- What every step keeps. -/
structure Sound (hex : ℕ → String) (s : Connection) : Prop where
  balanced : Balanced s
  logged : Logged hex s.speech
  delivered : Delivered s.speech

theorem sound_init (bounds : Ingress.Bounds) : Sound hex (Connection.init bounds) := by
  refine ⟨⟨?_, le_rfl, rfl, nofun, fun hne => absurd rfl hne, fun _ => rfl⟩, ?_, ?_⟩
  · show 0 + (({ bounds := bounds } : Ingress).serve (sessionTask 0)).boundaries ≤ 0
    exact le_rfl
  · exact ⟨stands_init, rfl, rfl, nofun⟩
  · exact ⟨nofun, nofun, nofun, nofun, fun hne => absurd rfl hne, .refl _ _, .refl _ _⟩

theorem Step.sound {bytesPerSecond : ℕ} {s t : Connection}
    (hstep : Step hex bytesPerSecond act s t) (h : Sound hex s) : Sound hex t := by
  obtain ⟨hbalanced, htalk⟩ := hstep.balanced h.balanced
  exact ⟨hbalanced, htalk.logged h.logged, htalk.delivered h.logged h.delivered⟩

theorem Reaches.sound {bytesPerSecond : ℕ} {bounds : Ingress.Bounds} {s : Connection}
    (h : Reaches hex bytesPerSecond bounds s) : Sound hex s :=
  StepSystem.reachable_induction h (sound_init bounds) fun _ _ hs ⟨_, hstep⟩ => hstep.sound hs

/-- **Items and utterances are paired.** -/
structure Agreement (hex : ℕ → String) (s : Speech) : Prop where
  /-- The `i`-th commit acknowledges the `i`-th item, whose `previous` is the one before it. -/
  acknowledged : acknowledgedItems s.built = itemsFrom hex 0 s.commits
  /-- The items are announced in that order, each once; those of the commits are, and at most the
  next one. -/
  announced : ∃ n, s.commits ≤ n ∧ n ≤ s.commits + 1 ∧ announcedItems s.built = itemsFrom hex 0 n
  /-- What is on the wire is what was built, in that order. -/
  acknowledged_sent : acknowledgedItems s.wire <+: acknowledgedItems s.built
  announced_sent : announcedItems s.wire <+: announcedItems s.built
  /-- An utterance that is over has its commit. -/
  committed : s.utterance ≤ s.commits
  /-- A frame that names an item is one of an utterance, and names its item. -/
  named : ∀ x ∈ s.wire, ∀ id, x.frame.names = some id →
    ∃ i ≤ s.utterance, x.author = .utterance i ∧ id = (itemAt hex i).id

theorem Sound.agreement {s : Connection} (h : Sound hex s) : Agreement hex s.speech := by
  have hpaired := h.logged.stands.paired
  obtain ⟨hminted, hone⟩ := hpaired.minted
  refine ⟨h.logged.acknowledged, ?_, h.delivered.acknowledged.1,
    (List.prefix_append _ _).trans h.delivered.announced.1, hpaired.le, ?_⟩
  · rcases h.logged.stands.pending with hsilent | ⟨hwaits, huncommitted⟩
    · refine ⟨s.speech.encoder.minted, hminted, hone, ?_⟩
      have hannounced := h.logged.announced
      rwa [hsilent, List.filterMap_nil, List.append_nil] at hannounced
    · -- the adapter minted the next item for an event that could not be encoded
      have hnext : s.speech.encoder.minted = s.speech.utterance + 1 ∧
          s.speech.commits = s.speech.utterance := by
        cases hpaired with
        | early _ _ _ hc hm => exact ⟨hm, hc⟩
        | unnamed _ _ hnone _ _ =>
          rw [hnone] at huncommitted
          cases huncommitted
        | named _ _ hnone _ _ =>
          rw [hnone] at huncommitted
          cases huncommitted
      refine ⟨s.speech.commits, le_rfl, Nat.le_succ _, ?_⟩
      have hannounced := h.logged.announced
      rw [hwaits, hnext.1, itemsFrom_concat (Nat.zero_le _), hnext.2.symm] at hannounced
      exact List.append_cancel_right hannounced
  · intro x hx id hid
    obtain ⟨i, hi, hauthor, hitem⟩ := h.logged.named x (h.delivered.wire x hx) id hid
    exact ⟨i, hi, hauthor, by rw [hitem, itemAt_id]⟩

/-- **Item agreement**, over any interleaving of the reader and the adapter. -/
theorem items_agree {bytesPerSecond : ℕ} {bounds : Ingress.Bounds} {s : Connection}
    (h : Reaches hex bytesPerSecond bounds s) : Agreement hex s.speech := h.sound.agreement

/-- Ids that are told apart by their length. -/
def strokes (n : ℕ) : String := String.ofList (List.replicate n 'a')

def hallo : Event := { content := .final "Hallo" [] .committed (some 0) }

/-- The adapter speaks before the commit: the item is announced, and the delta in hand. -/
def spokenEarly : Connection :=
  let s := Connection.init Ingress.tenBytes
  { s.emit strokes hallo with deeds := [.emitted 0 hallo] }

theorem spokenEarly_reached : Reaches strokes 32000 Ingress.tenBytes
    { spokenEarly with
      speech := (spokenEarly.speech.sendEvents spokenEarly.speech.events).commit strokes
      reader := .acknowledging } :=
  ((Relation.ReflTransGen.refl.tail ⟨_, .emits hallo rfl rfl rfl⟩).tail
    ⟨_, .sends (s := spokenEarly) (List.cons_ne_nil _ _)⟩).tail ⟨_, .commit rfl rfl⟩

theorem spokenEarly_agrees :
    Agreement strokes
        ((spokenEarly.speech.sendEvents spokenEarly.speech.events).commit strokes) ∧
      ((spokenEarly.speech.sendEvents spokenEarly.speech.events).commit strokes).wire =
        [⟨.utterance 0, .created "item_" none⟩,
          ⟨.utterance 0, .delta "item_" 0 "Hallo" .committed (some 0) []⟩,
          ⟨.reader, .committed "item_" none⟩] :=
  ⟨items_agree spokenEarly_reached, rfl⟩

/-- A failed utterance ends with an `error`, and an `error` names no item. -/
theorem failed_names_nothing : ¬ ∀ (hex : ℕ → String) (bytesPerSecond : ℕ)
    (bounds : Ingress.Bounds) (s : Connection), Reaches hex bytesPerSecond bounds s →
      ∀ x ∈ s.speech.wire, ∀ i, x.author = .utterance i → x.frame.isTerminal = true →
        x.frame.names = some (itemAt hex i).id := by
  intro h
  have hreached : Reaches strokes 32000 Ingress.tenBytes _ := Relation.ReflTransGen.refl.tail
    ⟨_, .emits { content := .error "inference_failed" "out of memory" } rfl rfl rfl⟩
  have hnames := h _ _ _ _ hreached
    ⟨.utterance 0, .error "server_error" "server_error" "out of memory"⟩
      List.mem_cons_self 0 rfl rfl
  cases hnames

end Ie115

end Myna
