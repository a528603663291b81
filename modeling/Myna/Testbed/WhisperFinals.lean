import Mathlib.Data.List.Nodup
import Mathlib.Data.Rat.Floor
import Mathlib.Tactic.Linarith
import Myna.Testbed.WhisperBatch

/-!
# Myna — Whisper's finals are the committed words

What a decode leaves of a region (`Sound`) is what `on_commit` needs of it: each segment says its
words, no object is in it twice or was in an earlier one, and its words are timed inside it.

* **`sound_decode`** — every decode leaves such a region, whichever re-decode was the best;
* **`texts_onCommit`** — a commit appends the texts of its words, segment by segment;
* **`finals_are_committed`** — over any run, the finals are the words that were committed.
-/

namespace List

variable {α β : Type*}

/-- A sublist is found again by what tells the elements of the list apart. -/
theorem filter_mem_map_of_sublist [DecidableEq β] {f : α → β} {l₁ l₂ : List α} (h : l₁ <+ l₂)
    (hnodup : (l₂.map f).Nodup) : l₂.filter (fun a => f a ∈ l₁.map f) = l₁ := by
  induction h with
  | slnil => rfl
  | cons a h ih =>
    rw [map_cons, nodup_cons] at hnodup
    have hnot : f a ∉ map f _ := fun hmem => hnodup.1 ((h.map f).subset hmem)
    rw [filter_cons_of_neg (by simpa using hnot)]
    exact ih hnodup.2
  | cons_cons a h ih =>
    rw [map_cons, nodup_cons] at hnodup
    rw [filter_cons_of_pos (by simp)]
    congr 1
    rw [← ih hnodup.2]
    refine filter_congr fun b hb => ?_
    -- the rest of the list holds no other element like `a`
    have hne : f b ≠ f a := fun heq => hnodup.1 (heq ▸ mem_map_of_mem hb)
    rw [ih hnodup.2]
    simp [hne]

theorem rdropWhile_append_of_self {p : α → Bool} {l : List α} (h : l.rdropWhile p = l)
    (l' : List α) : (l ++ l').rdropWhile p = l ++ l'.rdropWhile p := by
  induction l' using reverseRecOn with
  | nil => simpa using h
  | append_singleton l' a ih =>
    rw [← append_assoc, rdropWhile_concat, rdropWhile_concat, ih]
    split <;> simp

end List

namespace Myna

namespace WhisperBatch

section

variable {U : Unicode}

/-! ## Unaligned words -/

/-- What has been read so far, of which `inked` says whether it ends in a word or is all
whitespace. -/
theorem flatten_unalignedFrom {current : Text} {inked : Bool} (text : Text)
    (hinked : inked = true → U.rstrip current = current)
    (hblank : inked = false → U.rstrip current = []) :
    (unalignedFrom U current inked text).flatten = U.rstrip (current ++ text) := by
  induction text generalizing current inked with
  | nil =>
    rw [List.append_nil]
    cases inked with
    | true => simpa [unalignedFrom] using (hinked rfl).symm
    | false => simpa [unalignedFrom] using (hblank rfl).symm
  | cons c rest ih =>
    have hassoc : current ++ c :: rest = (current ++ [c]) ++ rest := by simp
    cases hc : U.isSpace c with
    | false =>
      have hkeep : U.rstrip (current ++ [c]) = current ++ [c] :=
        List.rdropWhile_concat_neg _ _ _ (by simp [hc])
      simp only [unalignedFrom, hc, Bool.false_eq_true, if_false]
      rw [hassoc, ih (fun _ => hkeep) (by simp)]
    | true =>
      have hdrop : U.rstrip (current ++ [c]) = U.rstrip current :=
        List.rdropWhile_concat_pos _ _ _ hc
      cases inked with
      | false =>
        simp only [unalignedFrom, hc, Bool.false_eq_true, if_true, if_false]
        rw [hassoc, ih (by simp) fun _ => hdrop.trans (hblank rfl)]
      | true =>
        -- a word ends here, and the next begins with this whitespace
        have hone : U.rstrip [c] = [] := by simp [Unicode.rstrip, List.rdropWhile_singleton, hc]
        simp only [unalignedFrom, hc, if_true, List.flatten_cons]
        rw [ih (by simp) fun _ => hone]
        exact (List.rdropWhile_append_of_self (hinked rfl) (c :: rest)).symm

theorem flatten_unalignedWords (text : Text) :
    (unalignedWords U text).flatten = U.rstrip text :=
  flatten_unalignedFrom text (by simp) fun _ => rfl

/-! ## What a decode leaves -/

/-- The text of the words. -/
def textOf (words : List WordObject) : Text := words.flatMap fun w => w.word.text

@[simp] theorem textOf_cons (w : WordObject) (words : List WordObject) :
    textOf (w :: words) = w.word.text ++ textOf words := rfl

theorem rstrip_textOf (words : List WordObject) :
    U.rstrip (textOf words) = U.joinNatural (words.map WordObject.word) := by
  rw [Unicode.joinNatural, List.flatMap_map]
  rfl

def Entry.words (entry : Entry) : List WordObject := entry.pairs.map Prod.fst

/-- The segment says its words, up to whitespace at its end. -/
def Entry.Faithful (U : Unicode) (entry : Entry) : Prop :=
  U.rstrip entry.segment.text = U.rstrip (textOf entry.words)

/-- Both times lie between the bounds. -/
def Within (floor ceiling : Seconds) (word : Word) : Prop :=
  (floor ≤ word.start ∧ word.start ≤ ceiling) ∧ floor ≤ word.stop ∧ word.stop ≤ ceiling

/-- A region whose objects were made between the `lo`th and the `hi`th. -/
structure Sound (U : Unicode) (floor ceiling : Seconds) (lo hi : ℕ) (region : List Entry) :
    Prop where
  faithful : ∀ entry ∈ region, entry.Faithful U
  nodup : ((wordsOf region).map WordObject.id).Nodup
  fresh : ∀ w ∈ wordsOf region, lo ≤ w.id ∧ w.id < hi
  timed : ∀ w ∈ wordsOf region, Within floor ceiling w.word

theorem Sound.mono {floor ceiling : Seconds} {lo lo' hi hi' : ℕ} {region : List Entry}
    (h : Sound U floor ceiling lo hi region) (hlo : lo' ≤ lo) (hhi : hi ≤ hi') :
    Sound U floor ceiling lo' hi' region where
  faithful := h.faithful
  nodup := h.nodup
  fresh := fun w hw => ⟨hlo.trans (h.fresh w hw).1, (h.fresh w hw).2.trans_le hhi⟩
  timed := h.timed

variable {place : Place}

theorem Place.clamp_mem (h : place.floor ≤ place.ceiling) (t : Seconds) :
    place.floor ≤ place.clamp t ∧ place.clamp t ≤ place.ceiling :=
  ⟨le_min (le_max_right _ _) h, min_le_right _ _⟩

theorem Place.within_at (h : place.floor ≤ place.ceiling) (id : ℕ) (text : Text)
    (start stop : Seconds) :
    Within place.floor place.ceiling (place.at id text start stop).word :=
  ⟨place.clamp_mem h start, place.clamp_mem h stop⟩

/-- The objects of a segment are numbered in their order. -/
theorem ids_pairsOf (place : Place) (id : ℕ) (segment : DecodedSegment) :
    ((pairsOf U place id segment).map fun pair => pair.1.id) =
      List.range' id (pairsOf U place id segment).length := by
  unfold pairsOf
  split
  · rw [List.map_map, List.length_map, List.length_zipIdx, ← List.zipIdx_map_snd]
    rfl
  · rw [List.map_map, List.length_map, List.length_zipIdx, ← List.zipIdx_map_snd]
    rfl

theorem within_pairsOf (h : place.floor ≤ place.ceiling) (id : ℕ) (segment : DecodedSegment) :
    ∀ pair ∈ pairsOf U place id segment, Within place.floor place.ceiling pair.1.word := by
  intro pair hpair
  unfold pairsOf at hpair
  split at hpair
  · obtain ⟨a, -, rfl⟩ := List.mem_map.mp hpair
    exact place.within_at h _ _ _ _
  · obtain ⟨a, -, rfl⟩ := List.mem_map.mp hpair
    exact place.within_at h _ _ _ _

theorem faithful_pairsOf (place : Place) (id : ℕ) (segment : DecodedSegment) (origin : Seconds)
    (haligned : segment.words ≠ [] → segment.words.flatMap Aligned.word = segment.text) :
    Entry.Faithful U ⟨segment, pairsOf U place id segment, origin⟩ := by
  unfold Entry.Faithful Entry.words pairsOf textOf
  split
  · next hne =>
    rw [List.map_map, List.flatMap_map, ← haligned hne]
    conv_lhs => rw [← List.zipIdx_map_fst id segment.words, List.flatMap_map]
    rfl
  · -- the words were cut out of the text, whose last whitespace none of them has
    have hflat := flatten_unalignedWords (U := U) segment.text
    conv at hflat => lhs; rw [← List.zipIdx_map_fst id (unalignedWords U segment.text)]
    rw [List.map_map, List.flatMap_map]
    have hwords : (List.flatMap (fun a : Text × ℕ => a.1)
        ((unalignedWords U segment.text).zipIdx id)) = U.rstrip segment.text := hflat
    have hidem : U.rstrip (U.rstrip segment.text) = U.rstrip segment.text :=
      List.rdropWhile_idempotent _ _
    rw [← hidem, ← hwords]
    rfl

/-- The objects of a region are numbered in their order. -/
theorem ids_entriesOf (place : Place) (id : ℕ) (segments : List DecodedSegment) :
    (wordsOf (entriesOf U place id segments)).map WordObject.id =
      List.range' id (wordsOf (entriesOf U place id segments)).length := by
  induction segments generalizing id with
  | nil => rfl
  | cons segment rest ih =>
    have hpairs := ids_pairsOf (U := U) place id segment
    simp only [entriesOf, wordsOf, List.flatMap_cons, List.map_append, List.length_append,
      List.length_map, List.map_map] at hpairs ih ⊢
    rw [List.range'_append_1.symm, ← ih, ← hpairs]
    rfl

theorem sound_entriesOf (h : place.floor ≤ place.ceiling) (id : ℕ)
    {segments : List DecodedSegment}
    (haligned : ∀ segment ∈ segments, segment.words ≠ [] →
      segment.words.flatMap Aligned.word = segment.text) :
    Sound U place.floor place.ceiling id (id + (wordsOf (entriesOf U place id segments)).length)
      (entriesOf U place id segments) where
  faithful := by
    induction segments generalizing id with
    | nil => simp [entriesOf]
    | cons segment rest ih =>
      rw [List.forall_mem_cons] at haligned
      simp only [entriesOf, List.forall_mem_cons]
      exact ⟨faithful_pairsOf place id segment _ haligned.1, ih _ haligned.2⟩
  nodup := by
    rw [ids_entriesOf]
    exact List.nodup_range'
  fresh := by
    intro w hw
    have hmem := List.mem_map_of_mem (f := WordObject.id) hw
    rw [ids_entriesOf, List.mem_range'_1] at hmem
    exact hmem
  timed := by
    clear haligned
    induction segments generalizing id with
    | nil => simp [entriesOf, wordsOf]
    | cons segment rest ih =>
      intro w hw
      simp only [entriesOf, wordsOf, List.flatMap_cons, List.mem_append, List.mem_map] at hw
      rcases hw with ⟨pair, hpair, rfl⟩ | hw
      · exact within_pairsOf h id segment pair hpair
      · exact ih _ w hw

/-! ## Decodes -/

variable {whisper : Whisper} {config : Config} {s : Session}

/-- The session's region is sound, and holds objects from the `lo`th on. -/
def Session.Holds (U : Unicode) (floor ceiling : Seconds) (lo : ℕ) (s : Session) : Prop :=
  lo ≤ s.nextId ∧ Sound U floor ceiling lo s.nextId s.region

@[simp] theorem finals_decodeOnce (samples : List ℚ) (place : Place) (wordTimestamps : Bool) :
    (s.decodeOnce U whisper config samples place wordTimestamps).finals = s.finals := rfl

theorem holds_decodeOnce (haligned : Aligns whisper) (h : place.floor ≤ place.ceiling)
    (samples : List ℚ) (wordTimestamps : Bool) :
    (s.decodeOnce U whisper config samples place wordTimestamps).Holds U place.floor place.ceiling
      s.nextId :=
  ⟨Nat.le_add_right _ _, sound_entriesOf h _ (haligned _ _)⟩

variable (config) in
/-- The best of the re-decodes is sound, and so is what it was to be better than. -/
theorem sound_retry (haligned : Aligns whisper) {offset stop : Seconds} (h : offset ≤ stop)
    {lo : ℕ} (samples : List ℚ) (wordTimestamps : Bool) (pads : List Seconds)
    (best : List Entry × (ℚ × ℤ)) (hlo : lo ≤ s.nextId)
    (hbest : Sound U offset stop lo s.nextId best.1) :
    let (region, s') := s.retry U whisper config samples offset stop wordTimestamps pads best
    lo ≤ s'.nextId ∧ s'.finals = s.finals ∧ Sound U offset stop lo s'.nextId region := by
  induction pads generalizing s best with
  | nil => exact ⟨hlo, rfl, hbest⟩
  | cons padS pads ih =>
    have hdecoded : (s.decodeOnce U whisper config (padded samples padS)
        ⟨offset - padS, offset, stop⟩ wordTimestamps).Holds U offset stop s.nextId :=
      holds_decodeOnce haligned h _ _
    simp only [Session.retry]
    generalize hs' : s.decodeOnce U whisper config (padded samples padS)
      ⟨offset - padS, offset, stop⟩ wordTimestamps = s' at hdecoded ⊢
    have hfinals : s'.finals = s.finals := by rw [← hs', finals_decodeOnce]
    have hlo' : lo ≤ s'.nextId := hlo.trans hdecoded.1
    -- either of the two is sound over the objects made by now
    have hbetter : Sound U offset stop lo s'.nextId
        (if rankLt (rankOf whisper samples offset s'.region) best.2 then
          (s'.region, rankOf whisper samples offset s'.region) else best).1 := by
      split
      · exact hdecoded.2.mono hlo le_rfl
      · exact hbest.mono le_rfl hdecoded.1
    generalize (if rankLt (rankOf whisper samples offset s'.region) best.2 then
      (s'.region, rankOf whisper samples offset s'.region) else best) = best' at hbetter ⊢
    by_cases hgap : best'.2.1 < UNTRANSCRIBED_GAP_S
    · rw [if_pos hgap]
      exact ⟨hlo', hfinals, hbetter⟩
    · rw [if_neg hgap, ← hfinals]
      exact ih best' hlo' hbetter

theorem Session.le_stopOf (samples : List ℚ) (offset : Seconds) :
    offset ≤ Session.stopOf samples offset := by
  have hnonneg : (0 : ℚ) ≤ samples.length / RATE := by positivity
  unfold Session.stopOf
  linarith

variable (config) in
/-- **Every decode leaves a sound region.** What it returns is the words of that region. -/
theorem sound_decode (haligned : Aligns whisper) (samples : List ℚ) (offset : Seconds) :
    (s.decode U whisper config samples offset).1 =
        wordsOf (s.decode U whisper config samples offset).2.region ∧
      (s.decode U whisper config samples offset).2.finals = s.finals ∧
      (s.decode U whisper config samples offset).2.Holds U offset (Session.stopOf samples offset)
        s.nextId := by
  have hle := Session.le_stopOf samples offset
  simp only [Session.decode]
  generalize (config.granularity.isSome || decide (toSamples offset < s.processed) ||
    decide (toSamples BATCH_FORCE_CUT_S ≤ samples.length)) = wordTimestamps
  have hfirst : (s.decodeOnce U whisper config samples ⟨offset, offset,
      Session.stopOf samples offset⟩ wordTimestamps).Holds U offset
        (Session.stopOf samples offset) s.nextId :=
    holds_decodeOnce haligned hle _ _
  generalize hs' : s.decodeOnce U whisper config samples
    ⟨offset, offset, Session.stopOf samples offset⟩ wordTimestamps = s' at hfirst ⊢
  have hfinals : s'.finals = s.finals := by rw [← hs', finals_decodeOnce]
  split
  · have hretried := sound_retry config haligned hle samples wordTimestamps RETRY_PADS
      (s'.region, rankOf whisper samples offset s'.region) hfirst.1 hfirst.2
    exact ⟨trivial, hretried.2.1.trans hfinals, hretried.1, hretried.2.2⟩
  · exact ⟨trivial, hfinals, hfirst⟩

/-! ## Commits -/

/-- The finals of the segments' texts: one that says something each, the session's first without
the whitespace it begins with. -/
def shownTexts (U : Unicode) (first : Bool) (texts : List Text) : List Text :=
  match texts.filter (· ≠ []) with
  | [] => []
  | text :: rest => U.utteranceEdge text first :: rest

theorem shownTexts_false (texts : List Text) :
    shownTexts U false texts = texts.filter (· ≠ []) := by
  unfold shownTexts
  split
  · next h => exact h.symm
  · next h => exact h.symm

theorem shownTexts_append (texts more : List Text) :
    shownTexts U true (texts ++ more) =
      shownTexts U true texts ++ shownTexts U (shownTexts U true texts).isEmpty more := by
  have happ : (texts ++ more).filter (· ≠ []) = texts.filter (· ≠ []) ++ more.filter (· ≠ []) :=
    List.filter_append ..
  cases h : texts.filter (· ≠ []) with
  | nil =>
    have hnone : shownTexts U true texts = [] := by simp only [shownTexts, h]
    rw [hnone]
    simp only [shownTexts, happ, h, List.nil_append, List.isEmpty_nil]
  | cons text rest =>
    have hsome : shownTexts U true texts = U.utteranceEdge text true :: rest := by
      simp only [shownTexts, h]
    rw [hsome, List.isEmpty_cons, shownTexts_false]
    simp only [shownTexts, happ, h, List.cons_append]

/-- What the loop over the region appends. -/
theorem texts_foldl_present (ids : List ℕ) (region : List Entry) (s : Session) :
    (region.foldl (Session.present U whisper config ids) s).finals.map Final.text =
      s.finals.map Final.text ++
        shownTexts U s.finals.isEmpty (region.map fun entry => entry.text U ids) := by
  induction region generalizing s with
  | nil => simp [shownTexts]
  | cons entry region ih =>
    rw [List.foldl_cons, ih, List.map_cons]
    by_cases hnil : entry.text U ids = []
    · have hsame : s.present U whisper config ids entry = s := by
        simp only [Session.present, if_pos hnil]
      rw [hsame]
      simp [shownTexts, hnil]
    · -- one more final, after which nothing is the session's first
      have hmore : (s.present U whisper config ids entry).finals.map Final.text =
          s.finals.map Final.text ++
            [U.utteranceEdge (entry.text U ids) s.finals.isEmpty] := by
        simp only [Session.present, if_neg hnil, List.map_append, Unicode.utteranceEdge]
        rfl
      have hfirst : (s.present U whisper config ids entry).finals.isEmpty = false := by
        simp [Session.present, if_neg hnil]
      rw [hmore, hfirst, shownTexts_false, List.append_assoc]
      simp [shownTexts, hnil]

/-- A segment's words that were committed. -/
def Entry.committed (entry : Entry) (ids : List ℕ) : List WordObject :=
  (entry.kept ids).map Prod.fst

/-- Both ways of forming a segment's text give that of its committed words. -/
theorem Entry.text_eq {entry : Entry} (h : entry.Faithful U) (ids : List ℕ) :
    entry.text U ids = U.rstrip (textOf (entry.committed ids)) := by
  unfold Entry.text
  split
  · next hall =>
    have hkept : entry.kept ids = entry.pairs :=
      List.filter_eq_self.mpr (List.length_filter_eq_length_iff.mp hall)
    rw [Entry.committed, hkept]
    exact h
  · rw [Entry.committed, textOf, List.flatMap_map]

/-- The committed words, segment by segment. -/
theorem flatten_committed (region : List Entry) (ids : List ℕ) :
    (region.map fun entry => entry.committed ids).flatten =
      (wordsOf region).filter fun w => w.id ∈ ids := by
  induction region with
  | nil => rfl
  | cons entry region ih =>
    have hcons : wordsOf (entry :: region) = entry.words ++ wordsOf region := rfl
    rw [List.map_cons, List.flatten_cons, ih, hcons, List.filter_append]
    congr 1
    rw [Entry.words, List.filter_map]
    rfl

/-- The texts of blocks of words, up to the whitespace at their ends. -/
def blockTexts (U : Unicode) (blocks : List (List WordObject)) : List Text :=
  blocks.map fun block => U.rstrip (textOf block)

variable (whisper config) in
/-- **A commit appends the texts of its words**, segment by segment. -/
theorem texts_onCommit {floor ceiling : Seconds} {lo hi : ℕ}
    (hsound : Sound U floor ceiling lo hi s.region) {committed : List WordObject}
    (hsub : committed.Sublist (wordsOf s.region)) :
    ∃ blocks : List (List WordObject), blocks.flatten = committed ∧
      (s.onCommit U whisper config committed).finals.map Final.text =
        s.finals.map Final.text ++ shownTexts U s.finals.isEmpty (blockTexts U blocks) := by
  refine ⟨s.region.map fun entry => entry.committed (committed.map WordObject.id), ?_, ?_⟩
  · rw [flatten_committed]
    exact List.filter_mem_map_of_sublist hsub hsound.nodup
  · have htexts : s.region.map (fun entry => entry.text U (committed.map WordObject.id)) =
        blockTexts U (s.region.map fun entry => entry.committed (committed.map WordObject.id)) := by
      rw [blockTexts, List.map_map]
      exact List.map_congr_left fun entry hentry => entry.text_eq (hsound.faithful entry hentry) _
    rw [← htexts]
    exact texts_foldl_present _ _ _

/-! ## Runs -/

/-- All the finals together are the blocks' texts, without the whitespace they begin with. -/
theorem flatten_shownTexts (blocks : List (List WordObject)) :
    (shownTexts U true (blockTexts U blocks)).flatten =
      U.lstrip (blockTexts U blocks).flatten := by
  have hflat : ((blockTexts U blocks).filter (· ≠ [])).flatten = (blockTexts U blocks).flatten :=
    List.flatten_filter_ne_nil
  unfold shownTexts
  rw [← hflat]
  split
  · next h => rw [h]; rfl
  · next text rest h =>
    have hmem : text ∈ (blockTexts U blocks).filter (· ≠ []) := by rw [h]; exact List.mem_cons_self
    obtain ⟨hblock, hne⟩ := List.mem_filter.mp hmem
    obtain ⟨block, -, hjoin⟩ := List.mem_map.mp hblock
    have htrimmed : U.Trimmed text := by
      rw [← hjoin, rstrip_textOf] at hne ⊢
      exact Unicode.joinNatural_trimmed (by simpa using hne)
    -- it has a character that is no whitespace, so nothing after it is dropped
    have hsome : U.lstrip text ≠ [] := htrimmed.lstrip.1
    rw [h, List.flatten_cons, List.flatten_cons]
    show U.lstrip text ++ rest.flatten = List.dropWhile _ (text ++ rest.flatten)
    rw [List.dropWhile_append, if_neg (by rw [List.isEmpty_iff]; exact hsome)]
    rfl

/-- The words of a run so far are different objects, and the finals are their texts. -/
structure Kept (U : Unicode) (all : List WordObject) (s : Session) : Prop where
  texts : ∃ blocks : List (List WordObject), blocks.flatten = all ∧
    s.finals.map Final.text = shownTexts U true (blockTexts U blocks) ∧
    s.finals.flatMap Final.text = U.lstrip (blockTexts U blocks).flatten
  nodup : (all.map WordObject.id).Nodup

theorem nextId_onCommit (committed : List WordObject) :
    (s.onCommit U whisper config committed).nextId = s.nextId := by
  show (s.region.foldl _ s).nextId = s.nextId
  generalize s.region = region
  induction region generalizing s with
  | nil => rfl
  | cons entry region ih =>
    rw [List.foldl_cons, ih, Session.present]
    split <;> rfl

/-- The run's invariant: its words are different objects, all of them made by now. -/
theorem kept_of_run (haligned : Aligns whisper) {all : List WordObject}
    (run : Run U whisper config all s) : Kept U all s ∧ ∀ w ∈ all, w.id < s.nextId := by
  induction run with
  | start => exact ⟨⟨⟨[], rfl, rfl, rfl⟩, List.nodup_nil⟩, by simp⟩
  | @skipped all s samples offset run ih =>
    obtain ⟨hkept, hids⟩ := ih
    obtain ⟨-, hfinals, hholds⟩ := sound_decode (U := U) (s := s) config haligned samples offset
    refine ⟨⟨?_, hkept.nodup⟩, fun w hw => (hids w hw).trans_le hholds.1⟩
    rw [hfinals]
    exact hkept.texts
  | @committed all committed s samples offset run hsub ih =>
    obtain ⟨hkept, hids⟩ := ih
    obtain ⟨hwords, hfinals, hholds⟩ := sound_decode (U := U) (s := s) config haligned samples
      offset
    generalize s.decode U whisper config samples offset = decoded at *
    rw [hwords] at hsub
    obtain ⟨blocks, hblocks, htexts, -⟩ := hkept.texts
    obtain ⟨more, hmore, happended⟩ := texts_onCommit whisper config hholds.2 hsub
    have hfresh : ∀ w ∈ committed, s.nextId ≤ w.id ∧ w.id < decoded.2.nextId :=
      fun w hw => hholds.2.fresh w (hsub.subset hw)
    have hfirst : s.finals.isEmpty = (shownTexts U true (blockTexts U blocks)).isEmpty := by
      rw [← htexts, List.isEmpty_map]
    have hall : (decoded.2.onCommit U whisper config committed).finals.map Final.text =
        shownTexts U true (blockTexts U (blocks ++ more)) := by
      rw [happended, hfinals, htexts, hfirst, ← shownTexts_append, blockTexts, blockTexts,
        blockTexts, List.map_append]
    refine ⟨⟨⟨blocks ++ more, ?_, hall, ?_⟩, ?_⟩, ?_⟩
    · rw [List.flatten_append, hblocks, hmore]
    · rw [← flatten_shownTexts, ← hall, List.flatMap_def]
    · -- an object of this region was made after all the earlier ones
      rw [List.map_append, List.nodup_append]
      refine ⟨hkept.nodup, (hsub.map _).nodup hholds.2.nodup, ?_⟩
      intro id hid id' hid' heq
      obtain ⟨w, hw, rfl⟩ := List.mem_map.mp hid
      obtain ⟨w', hw', rfl⟩ := List.mem_map.mp hid'
      have hlt := hids w hw
      have hge := (hfresh w' hw').1
      omega
    · rw [nextId_onCommit]
      intro w hw
      rcases List.mem_append.mp hw with hw | hw
      · exact (hids w hw).trans_le hholds.1
      · exact (hfresh w hw).2

/-- **The finals are the committed words.** Over any run, each committed word is in one block,
in the order of the commits, and the finals are the texts of the blocks that say something. Whatever
the next region is, its words are timed inside it, and its finals are those of its words. -/
theorem finals_are_committed (haligned : Aligns whisper) {all : List WordObject}
    (run : Run U whisper config all s) :
    Kept U all s ∧
      ∀ samples offset, ∀ words s', s.decode U whisper config samples offset = (words, s') →
        (∀ w ∈ words, Within offset (Session.stopOf samples offset) w.word) ∧
        ∀ committed : List WordObject, committed.Sublist words →
          ∃ blocks : List (List WordObject), blocks.flatten = committed ∧
            (s'.onCommit U whisper config committed).finals.map Final.text =
              s.finals.map Final.text ++ shownTexts U s.finals.isEmpty (blockTexts U blocks) := by
  refine ⟨(kept_of_run haligned run).1, fun samples offset words s' hdecode => ?_⟩
  obtain ⟨hwords, hfinals, hholds⟩ := sound_decode (U := U) (s := s) config haligned samples offset
  rw [hdecode] at hwords hfinals hholds
  dsimp only at hwords hfinals hholds
  rw [hwords]
  refine ⟨hholds.2.timed, fun committed hsub => ?_⟩
  rw [← hfinals]
  exact texts_onCommit whisper config hholds.2 hsub

end

/-- A decoder that leaves out the second segment the first time. -/
def skipping : Whisper where
  transcribe n _ :=
    let aligned : DecodedSegment := ⟨" Hello there".toList,
      [⟨" Hello".toList, 0, 1, 1⟩, ⟨" there".toList, 1, 2, 1⟩], [1, 2], 0, 2, 0⟩
    let unaligned : DecodedSegment := ⟨" good  night ".toList, [], [3], 2, 9, 0⟩
    if n = 0 then ([aligned], "en".toList) else ([aligned, unaligned], "en".toList)
  textTokens _ := []
  untranscribedGap _ spans := if spans.length < 3 then 5 else 0

/-- The region is decoded again, and all but its last word is committed. -/
theorem finals_are_committed_skipping :
    let config : Config := ⟨none, none, none⟩
    let first := (Session.start .ascii skipping config).decode .ascii skipping config [0, 0] 3
    let s := first.2.onCommit .ascii skipping config first.1.dropLast
    first.1.map (fun w => (w.id, w.word.text)) = [(2, " Hello".toList), (3, " there".toList),
      (4, " good".toList), (5, "  night".toList)] ∧
    s.finals.map Final.text = ["Hello there".toList, " good".toList] ∧
    Kept .ascii first.1.dropLast s := by
  refine ⟨by decide +kernel, by decide +kernel, ?_⟩
  have haligned : Aligns skipping := by
    intro n request segment hsegment
    simp only [skipping] at hsegment
    split at hsegment
    · rw [List.mem_singleton.mp hsegment]
      simp
    · rcases List.mem_pair.mp hsegment with rfl | rfl
      · simp
      · simp
  have run : Run .ascii skipping ⟨none, none, none⟩ _ _ :=
    .committed [0, 0] 3 .start (List.dropLast_sublist _)
  exact (finals_are_committed haligned run).1

end WhisperBatch

end Myna
