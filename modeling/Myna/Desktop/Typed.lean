import Myna.Desktop.ControllerRuns

/-!
# Myna — what is typed against the transcript

The server sends the transcript piece by piece as `Final` texts. `typed` is what landed in the field
and `lost` what did not; `Spaced` says that pieces meet at a space that one of them brings.

* **`Exact`** — with nothing lost: what is typed and what waits, against the `Final` texts so far;
* **`typed_iff_spaced`** — what is typed is the transcript exactly if nothing is lost and the pieces
  are spaced.
-/

namespace Myna

namespace Desktop

open Orchestrator (OrchestratorEvent SessionOutcome)

namespace Controller

/-! ## What a log tells -/

def finalText? : Entry → Option String
  | .routed (.final text) => some text
  | _ => none

def typed? : Entry → Option String
  | .committed _ _ text (.ok ()) => some text
  | _ => none

def lost? : Entry → Option String
  | .discarded pending => some pending
  | .committed _ pending _ (.error _) => some pending
  | _ => none

/-- The `Final` texts, one behind the other. -/
def finals (log : List Entry) : String := String.join (log.filterMap finalText?)

/-- What landed in the field. -/
def typed (log : List Entry) : String := String.join (log.filterMap typed?)

/-- The texts that reached no field: refused, or discarded once the target was lost. -/
def lost (log : List Entry) : List String := log.filterMap lost?

/-- `c` was before the cursor when a text was handed over. -/
def Asked (log : List Entry) (c : Char) : Prop :=
  ∃ pending text answer, .committed (some c) pending text answer ∈ log

/-- A `Final` text meets the text it follows at a space: within a burst a space of either side, and
at its beginning, where something was said before, a space of its own. -/
def SpacedAt (past : List Entry) : Entry → Prop
  | .routed (.final text) =>
    let burst := String.join (tally past).burst
    if burst ≠ "" then endsWithSpace burst = true ∨ startsWithSpace text = true
    else text ≠ "" → (tally past).said ≠ "" → startsWithSpace text = true
  | _ => True

def Spaced (log : List Entry) : Prop := History.Lawful SpacedAt log

/-- The text that was typed is the transcript, or that behind a space to continue what was there. -/
def Typed (log : List Entry) (transcript : String) : Prop :=
  typed log = transcript ∨
    typed log = " " ++ transcript ∧ ∃ c, Asked log c ∧ continuesAfter c transcript = true

section Log

variable (log : List Entry) (e : Entry)

@[simp] theorem finals_concat : finals (log ++ [e]) = finals log ++ (finalText? e).getD "" := by
  rw [finals, List.filterMap_append, String.join_append, ← finals]
  cases h : finalText? e <;> simp [h]

@[simp] theorem typed_concat : typed (log ++ [e]) = typed log ++ (typed? e).getD "" := by
  rw [typed, List.filterMap_append, String.join_append, ← typed]
  cases h : typed? e <;> simp [h]

@[simp] theorem lost_concat : lost (log ++ [e]) = lost log ++ (lost? e).toList := by
  rw [lost, List.filterMap_append, ← lost]
  cases h : lost? e <;> simp [h]

/-- The `Final` texts are those before the last boundary and those since. -/
theorem finals_eq_tally : finals log = (tally log).said ++ String.join (tally log).burst := by
  induction log using List.reverseRecOn with
  | nil => rfl
  | append_singleton log e ih =>
    rw [finals_concat, tally_concat, ih]
    cases e with
    | routed event => cases event <;> simp [finalText?, Tally.count, String.append_assoc]
    | _ => simp [finalText?, Tally.count]

end Log

/-! ## Texts -/

/-- The characters that are not spaces. -/
def inkCount (text : String) : ℕ := text.toList.countP fun c => !isWhitespace c

@[simp] theorem inkCount_append (a b : String) : inkCount (a ++ b) = inkCount a + inkCount b := by
  simp [inkCount]

@[simp] theorem inkCount_space : inkCount " " = 0 := by decide

@[simp] theorem inkCount_empty : inkCount "" = 0 := by decide

theorem isBlank_iff {text : String} : isBlank text = true ↔ inkCount text = 0 := by
  simp [isBlank, inkCount, List.countP_eq_zero]

section Texts

variable {a b x text pending : String}

theorem head_append_of_ne (ha : a ≠ "") : (a ++ x).toList.head? = a.toList.head? := by
  have hne : a.toList ≠ [] := by simpa using ha
  rw [String.toList_append, List.head?_append]
  cases h : a.toList.head? with
  | none => exact absurd (List.head?_eq_none_iff.mp h) hne
  | some c => rfl

theorem eq_empty_of_head (h : a.toList.head? = b.toList.head?) (ha : a = "") : b = "" := by
  subst ha
  have hnil : b.toList = [] := List.head?_eq_none_iff.mp h.symm
  simpa using hnil

/-- Texts with the same beginning keep it, whatever follows. -/
theorem head_append_congr (h : a.toList.head? = b.toList.head?) :
    (a ++ x).toList.head? = (b ++ x).toList.head? := by
  by_cases ha : a = ""
  · rw [ha, eq_empty_of_head h ha]
  · have hb : b ≠ "" := fun hb => ha (eq_empty_of_head h.symm hb)
    rw [head_append_of_ne ha, head_append_of_ne hb, h]

theorem startsWithSpace_congr (h : a.toList.head? = b.toList.head?) :
    startsWithSpace a = startsWithSpace b := by
  rw [startsWithSpace, startsWithSpace, h]

theorem continuesAfter_congr {c : Char} (h : a.toList.head? = b.toList.head?) :
    continuesAfter c a = continuesAfter c b := by
  rw [continuesAfter, continuesAfter, h]

theorem ne_empty_of_continuesAfter {c : Char} (h : continuesAfter c text = true) : text ≠ "" := by
  rintro rfl
  cases h

theorem joined_empty : CommitBuffer.joined "" text = text := by
  simp [CommitBuffer.joined]

@[simp] theorem inkCount_joined :
    inkCount (CommitBuffer.joined pending text) = inkCount pending + inkCount text := by
  unfold CommitBuffer.joined
  split_ifs <;> simp

theorem joined_ne_empty (h : pending ≠ "") : CommitBuffer.joined pending text ≠ "" := by
  unfold CommitBuffer.joined
  split_ifs <;> simp [h]

theorem joined_eq_append (pending text : String) :
    ∃ rest, CommitBuffer.joined pending text = pending ++ rest := by
  unfold CommitBuffer.joined
  split_ifs
  · exact ⟨" " ++ text, String.append_assoc⟩
  · exact ⟨text, rfl⟩

theorem head_joined (h : pending ≠ "") :
    (CommitBuffer.joined pending text).toList.head? = pending.toList.head? := by
  unfold CommitBuffer.joined
  split_ifs
  · rw [String.append_assoc, head_append_of_ne h]
  · exact head_append_of_ne h

end Texts

theorem joinedAll_eq_empty {texts : List String} :
    joinedAll texts = "" ↔ String.join texts = "" := by
  induction texts using List.reverseRecOn with
  | nil => simp [joinedAll]
  | append_singleton texts text ih =>
    rw [joinedAll_concat, String.join_append]
    by_cases hempty : joinedAll texts = ""
    · rw [hempty, joined_empty, ih.mp hempty]
      simp
    · have hjoin : String.join texts ≠ "" := mt ih.mpr hempty
      simp [joined_ne_empty hempty, hjoin]

/-! ## The account of the text -/

/-- The space that the next flush puts before the text that waits. -/
def owed (buffer : CommitBuffer) : ℕ :=
  if buffer.committedAny = true ∧ buffer.pending ≠ "" ∧ startsWithSpace buffer.pending = false
  then 1 else 0

/-- With nothing lost: `lead` was put before everything, and `k` spaces in between. -/
structure Exact (log : List Entry) (buffer : CommitBuffer) (lead : String) (k : ℕ) : Prop where
  begun : buffer.committedAny = true ↔ (tally log).said ≠ ""
  fresh : buffer.committedAny = false → typed log = "" ∧ lead = ""
  landed : buffer.committedAny = true → typed log ≠ ""
  leads : lead = "" ∨ lead = " " ∧ ∃ c, Asked log c ∧ continuesAfter c (finals log) = true
  length : (typed log).length + buffer.pending.length + owed buffer =
    (finals log).length + lead.length + k
  spaced : k = 0 ↔ Spaced log
  text : k = 0 → typed log = lead ++ (tally log).said ∧
    buffer.pending = String.join (tally log).burst
  head : lead = "" → (typed log ++ buffer.pending).toList.head? = (finals log).toList.head?

/-- What the log says of the text that waits and of the text that is gone. -/
structure Typing (log : List Entry) (buffer : CommitBuffer) : Prop where
  pending : buffer.pending = joinedAll (tally log).burst
  ink : inkCount (typed log) + ((lost log).map inkCount).sum + inkCount buffer.pending =
    inkCount (finals log)
  exact : lost log = [] → ∃ lead k, Exact log buffer lead k

section Typing

variable {log : List Entry} {buffer : CommitBuffer} {e : Entry} {lead : String} {k : ℕ}

theorem Asked.mono {c : Char} (h : Asked log c) (e : Entry) : Asked (log ++ [e]) c := by
  obtain ⟨pending, text, answer, hmem⟩ := h
  exact ⟨pending, text, answer, List.mem_append_left _ hmem⟩

theorem spaced_concat_of (h : ∀ past, SpacedAt past e) : Spaced (log ++ [e]) ↔ Spaced log :=
  History.lawful_concat.trans (and_iff_left (h log))

/-- An entry that brings no text, takes none away, and closes no burst that says something. -/
theorem Typing.skip (h : Typing log buffer) (hfinal : finalText? e = none)
    (htyped : typed? e = none)
    (hlost : lost? e = none) (hspaced : ∀ past, SpacedAt past e)
    (hsaid : ((tally log).count e).said = (tally log).said)
    (hburst : ((tally log).count e).burst = (tally log).burst ∨
      buffer.pending = "" ∧ ((tally log).count e).burst = []) : Typing (log ++ [e]) buffer := by
  have hjoin : String.join ((tally log).count e).burst = String.join (tally log).burst ∧
      joinedAll ((tally log).count e).burst = joinedAll (tally log).burst := by
    rcases hburst with hburst | ⟨hempty, hburst⟩
    · rw [hburst]
      exact ⟨rfl, rfl⟩
    · have hnone : joinedAll (tally log).burst = "" := by rw [← h.pending, hempty]
      rw [hburst, hnone, joinedAll_eq_empty.mp hnone]
      exact ⟨rfl, rfl⟩
  refine ⟨?_, ?_, ?_⟩
  · rw [tally_concat, hjoin.2]
    exact h.pending
  · simpa [hfinal, htyped, hlost] using h.ink
  · intro hnone
    rw [lost_concat, hlost, Option.toList_none, List.append_nil] at hnone
    obtain ⟨lead, k, hexact⟩ := h.exact hnone
    refine ⟨lead, k, ?_, ?_, ?_, ?_, ?_, ?_, ?_, ?_⟩
    · rw [tally_concat, hsaid]
      exact hexact.begun
    · simpa [htyped] using hexact.fresh
    · simpa [htyped] using hexact.landed
    · refine hexact.leads.imp_right fun hlead => ⟨hlead.1, ?_⟩
      obtain ⟨c, hasked, hcontinues⟩ := hlead.2
      exact ⟨c, hasked.mono e, by simpa [hfinal] using hcontinues⟩
    · simpa [hfinal, htyped] using hexact.length
    · rw [spaced_concat_of hspaced]
      exact hexact.spaced
    · rw [tally_concat, hsaid, hjoin.1]
      simpa [htyped] using hexact.text
    · simpa [hfinal, htyped] using hexact.head

theorem Exact.leads_concat (h : Exact log buffer lead k) (text : String) :
    lead = "" ∨ lead = " " ∧ ∃ c, Asked (log ++ [.routed (.final text)]) c ∧
      continuesAfter c (finals log ++ text) = true := by
  refine h.leads.imp_right fun hlead => ⟨hlead.1, ?_⟩
  obtain ⟨c, hasked, hcontinues⟩ := hlead.2
  refine ⟨c, hasked.mono _, ?_⟩
  rwa [continuesAfter_congr (head_append_of_ne (ne_empty_of_continuesAfter hcontinues))]

theorem spaced_final (text : String) : Spaced (log ++ [.routed (.final text)]) ↔
    Spaced log ∧ SpacedAt log (.routed (.final text)) :=
  History.lawful_concat

/-- The first text of a burst. Where it follows something that was said, a space may fall due. -/
theorem Exact.final_first (h : Exact log buffer lead k) (hempty : buffer.pending = "")
    (hburst : String.join (tally log).burst = "") (text : String) :
    Exact (log ++ [.routed (.final text)])
      (buffer.push text) lead (k + owed (buffer.push text)) := by
  have hpending : (buffer.push text).pending = text := by
    show CommitBuffer.joined buffer.pending text = text
    rw [hempty, joined_empty]
  have howed : owed buffer = 0 := by simp [owed, hempty]
  have hlength := h.length
  rw [hempty, howed] at hlength
  refine ⟨?_, ?_, ?_, ?_, ?_, ?_, ?_, ?_⟩
  · simpa [Tally.count] using h.begun
  · simpa [typed?] using h.fresh
  · simpa [typed?] using h.landed
  · simpa [finalText?] using h.leads_concat text
  · simp only [typed_concat, finals_concat, typed?, finalText?, Option.getD_none, Option.getD_some,
      String.append_empty, String.length_append, hpending]
    simp at hlength
    omega
  · rw [spaced_final, ← h.spaced]
    have hat : SpacedAt log (.routed (.final text)) ↔
        (text ≠ "" → (tally log).said ≠ "" → startsWithSpace text = true) := by
      simp [SpacedAt, hburst]
    have hdue : owed (buffer.push text) = 0 ↔
        (text ≠ "" → (tally log).said ≠ "" → startsWithSpace text = true) := by
      rw [owed, hpending, ← h.begun, CommitBuffer.committedAny_push]
      cases startsWithSpace text <;> simp [not_imp_comm]
    rw [hat, ← hdue]
    omega
  · intro hnone
    obtain ⟨htyped, -⟩ := h.text (by omega)
    simpa [typed?, Tally.count, hpending, hburst] using htyped
  · intro hlead
    have hhead := h.head hlead
    rw [hempty, String.append_empty] at hhead
    simpa [typed?, finalText?, hpending] using head_append_congr (x := text) hhead

/-- A further text of a burst. Where neither side brings a space, one goes between them. -/
theorem Exact.final_next (h : Exact log buffer lead k) (hmore : buffer.pending ≠ "")
    (hburst : String.join (tally log).burst ≠ "") (text : String) :
    Exact (log ++ [.routed (.final text)]) (buffer.push text) lead
      (k + if endsWithSpace buffer.pending = false ∧ startsWithSpace text
        = false then 1 else 0) := by
  have hpending : (buffer.push text).pending = CommitBuffer.joined buffer.pending text := rfl
  have hstarts : startsWithSpace (CommitBuffer.joined buffer.pending text) =
      startsWithSpace buffer.pending := startsWithSpace_congr (head_joined hmore)
  have howed : owed (buffer.push text) = owed buffer := by
    simp [owed, hpending, hstarts, hmore, joined_ne_empty hmore]
  have hlength := h.length
  refine ⟨?_, ?_, ?_, ?_, ?_, ?_, ?_, ?_⟩
  · simpa [Tally.count] using h.begun
  · simpa [typed?] using h.fresh
  · simpa [typed?] using h.landed
  · simpa [finalText?] using h.leads_concat text
  · rw [howed, hpending]
    rw [typed_concat, finals_concat]
    simp only [typed?, finalText?, Option.getD_none, Option.getD_some, String.append_empty,
      String.length_append, CommitBuffer.joined, hmore, ne_eq, not_false_iff, true_and]
    have hspace : (" " : String).length = 1 := rfl
    split_ifs
    · rw [String.length_append, String.length_append, hspace]
      omega
    · rw [String.length_append]
      omega
  · rw [spaced_final, ← h.spaced]
    have hat : SpacedAt log (.routed (.final text)) ↔
        (endsWithSpace (String.join (tally log).burst) = true ∨ startsWithSpace text = true) := by
      simp [SpacedAt, hburst]
    rw [hat]
    by_cases hk : k = 0
    · rw [← (h.text hk).2]
      cases endsWithSpace buffer.pending <;> cases startsWithSpace text <;> simp [hk]
    · simp [hk]
  · intro hnone
    obtain ⟨htyped, htext⟩ := h.text (by omega)
    have hmet : ¬ (endsWithSpace buffer.pending = false ∧ startsWithSpace text = false) := by
      intro hgap
      rw [if_pos hgap] at hnone
      omega
    have hjoined : CommitBuffer.joined buffer.pending text = buffer.pending ++ text :=
      if_neg fun hgap => hmet hgap.2
    refine ⟨by simpa [typed?, Tally.count] using htyped, ?_⟩
    rw [hpending, hjoined, htext]
    simp [Tally.count]
  · intro hlead
    obtain ⟨rest, hrest⟩ := joined_eq_append buffer.pending text
    have hne : typed log ++ buffer.pending ≠ "" := by simp [hmore]
    have hhead := h.head hlead
    have hfinals : finals log ≠ "" := fun hnil => hne (eq_empty_of_head hhead.symm hnil)
    have htyped : typed (log ++ [.routed (.final text)]) = typed log := by simp [typed?]
    have hlater : finals (log ++ [.routed (.final text)]) = finals log ++ text := by
      simp [finalText?]
    rw [htyped, hlater, hpending, hrest, ← String.append_assoc, head_append_of_ne hne,
      head_append_of_ne hfinals, hhead]

/-- A `Final` text, pushed. -/
theorem Typing.final (h : Typing log buffer) (text : String) :
    Typing (log ++ [.routed (.final text)]) (buffer.push text) := by
  refine ⟨?_, ?_, ?_⟩
  · rw [tally_concat]
    show CommitBuffer.joined buffer.pending text = joinedAll ((tally log).burst ++ [text])
    rw [joinedAll_concat, h.pending]
  · have hink := h.ink
    simp only [typed_concat, lost_concat, finals_concat, typed?, lost?, finalText?,
      CommitBuffer.push,
      Option.getD_none, Option.getD_some, Option.toList_none, List.append_nil, String.append_empty,
      inkCount_joined, inkCount_append]
    omega
  · intro hnone
    have hnone : lost log = [] := by simpa [lost?] using hnone
    obtain ⟨lead, k, hexact⟩ := h.exact hnone
    have hpending := h.pending
    by_cases hempty : buffer.pending = ""
    · have hburst : String.join (tally log).burst = "" := by
        rw [← joinedAll_eq_empty, ← hpending, hempty]
      exact ⟨lead, _, hexact.final_first hempty hburst text⟩
    · exact ⟨lead, _, hexact.final_next hempty
        (by rwa [Ne, ← joinedAll_eq_empty, ← hpending]) text⟩

theorem inkCount_flushed (b : CommitBuffer) (before : Option Char) :
    inkCount (b.flushed before) = inkCount b.pending := by
  unfold CommitBuffer.flushed
  split_ifs <;> simp

/-- A text that reached no field is lost, with all that was owed to it. -/
theorem Typing.lose (h : Typing log buffer) (hfinal : finalText? e = none)
    (htyped : typed? e = none)
    (hlost : lost? e = some buffer.pending) (hburst : ((tally log).count e).burst = [])
    {buffer' : CommitBuffer} (hbuffer : buffer'.pending = "") : Typing (log ++ [e]) buffer' := by
  refine ⟨?_, ?_, ?_⟩
  · rw [tally_concat, hburst, hbuffer]
    rfl
  · have hink := h.ink
    simp only [typed_concat, lost_concat, finals_concat, hfinal, htyped, hlost, hbuffer,
      Option.getD_none, String.append_empty, Option.toList_some, List.map_append, List.map_cons,
      List.map_nil, List.sum_append, List.sum_cons, List.sum_nil, inkCount_empty]
    omega
  · intro hnone
    rw [lost_concat, hlost] at hnone
    simp at hnone

/-- A text that lands. The first of an utterance may go behind a space. -/
theorem Exact.land (h : Exact log buffer lead k) (hmore : buffer.pending ≠ "")
    (hburst : String.join (tally log).burst ≠ "") (before : Option Char) :
    ∃ lead' k', Exact (log ++ [.committed before buffer.pending (buffer.flushed before) (.ok ())])
      { buffer with pending := "", committedAny := true } lead' k' := by
  have hlength := h.length
  have hfinals := finals_eq_tally log
  have hlater : finals (log ++ [.committed before buffer.pending (buffer.flushed before) (.ok ())])
      = finals log := by
    simp [finalText?]
  have htyped : typed (log ++ [.committed before buffer.pending (buffer.flushed before) (.ok ())])
      = typed log ++ buffer.flushed before := by
    simp [typed?]
  have hsaid : (tally (log ++ [.committed before buffer.pending (buffer.flushed before)
    (.ok ())])).said
      = (tally log).said ++ String.join (tally log).burst := by
    rw [tally_concat]
    rfl
  have hne : buffer.flushed before ≠ "" := by
    unfold CommitBuffer.flushed
    split_ifs <;> simp [hmore]
  -- what follows holds of any `lead` that goes with the text handed over
  suffices hlead : ∃ lead', (lead' = "" ∨ lead' = " " ∧ ∃ c,
        Asked (log ++ [.committed before buffer.pending (buffer.flushed before) (.ok ())]) c ∧
          continuesAfter c (finals log) = true) ∧
      (typed log).length + (buffer.flushed before).length =
        (finals log).length + lead'.length + k ∧
      (k = 0 → typed log ++ buffer.flushed before = lead' ++ finals log) ∧
      (lead' = "" → (typed log ++ buffer.flushed before).toList.head?
        = (finals log).toList.head?) by
    obtain ⟨lead', hleads, hlength', htext, hhead⟩ := hlead
    refine ⟨lead', k, ?_, nofun, fun _ => ?_, ?_, ?_, ?_, ?_, ?_⟩
    · rw [hsaid]
      simp [hburst]
    · rw [htyped]
      simp [hne]
    · rwa [hlater]
    · rw [htyped, hlater, String.length_append]
      simpa [owed] using hlength'
    · exact h.spaced.trans (spaced_concat_of (e := .committed _ _ _ _) fun _ => trivial).symm
    · intro hk
      rw [htyped, hsaid, ← hfinals]
      exact ⟨htext hk, by rw [tally_concat]; rfl⟩
    · rw [htyped, hlater, String.append_empty]
      exact hhead
  cases hbegun : buffer.committedAny with
  | true =>
    -- a later text: the space that was owed is paid
    have hseparate : buffer.separate before = !startsWithSpace buffer.pending := by
      rw [CommitBuffer.separate, if_pos hbegun]
    have hflushed : (buffer.flushed before).length = owed buffer + buffer.pending.length := by
      rw [CommitBuffer.flushed, hseparate, owed]
      cases startsWithSpace buffer.pending with
      | true => simp
      | false =>
        rw [Bool.not_false, if_pos rfl, if_pos ⟨hbegun, hmore, rfl⟩, String.length_append]
        rfl
    refine ⟨lead, ?_, by omega, ?_, ?_⟩
    · exact h.leads.imp_right fun hlead => ⟨hlead.1, hlead.2.imp fun c hc => ⟨hc.1.mono _, hc.2⟩⟩
    · intro hk
      obtain ⟨htext, hpending⟩ := h.text hk
      have howed : owed buffer = 0 := by
        rw [htext, hpending, hfinals, String.length_append, String.length_append] at hlength
        omega
      have hstarts : startsWithSpace buffer.pending = true := by
        simpa [owed, hbegun, hmore] using howed
      rw [CommitBuffer.flushed, hseparate, hstarts, htext, hpending, hfinals, String.append_assoc]
      rfl
    · intro hlead
      have hhead := h.head hlead
      rwa [head_append_of_ne (h.landed hbegun)] at hhead ⊢
  | false =>
    -- the first text: `lead` is what separates it from the text before the cursor
    obtain ⟨hnil, rfl⟩ := h.fresh hbegun
    have hhead := h.head rfl
    rw [hnil, String.empty_append] at hhead
    have howed : owed buffer = 0 := by simp [owed, hbegun]
    have htext : k = 0 → buffer.pending = finals log := by
      intro hk
      obtain ⟨htext, hpending⟩ := h.text hk
      rw [hnil, String.empty_append] at htext
      rw [hpending, hfinals, ← htext, String.empty_append]
    rw [hnil] at hlength ⊢
    cases hseparate : buffer.separate before with
    | true =>
      obtain ⟨c, rfl, hcontinues⟩ : ∃ c, before = some c ∧
        continuesAfter c buffer.pending = true := by
        rw [CommitBuffer.separate, if_neg (by simp [hbegun])] at hseparate
        cases before with
        | none => cases hseparate
        | some c => exact ⟨c, rfl, hseparate⟩
      have hflushed : buffer.flushed (some c) = " " ++ buffer.pending := if_pos hseparate
      refine ⟨" ", Or.inr ⟨rfl, c, ?_, ?_⟩, ?_, ?_, nofun⟩
      · exact ⟨_, _, _, List.mem_append_right _ (List.mem_singleton.mpr rfl)⟩
      · rwa [← continuesAfter_congr hhead]
      · rw [hflushed, String.length_append]
        have hspace : ("" : String).length = 0 := rfl
        omega
      · intro hk
        rw [hflushed, htext hk, String.empty_append]
    | false =>
      have hflushed : buffer.flushed before = buffer.pending := if_neg (by simp [hseparate])
      refine ⟨"", Or.inl rfl, ?_, ?_, ?_⟩
      · rw [hflushed]
        omega
      · intro hk
        rw [hflushed, htext hk]
      · intro _
        rw [hflushed, String.empty_append]
        exact hhead

theorem Typing.land (h : Typing log buffer) (hmore : buffer.pending ≠ "") (before : Option Char) :
    Typing (log ++ [.committed before buffer.pending (buffer.flushed before) (.ok ())])
      { buffer with pending := "", committedAny := true } := by
  refine ⟨?_, ?_, ?_⟩
  · rw [tally_concat]
    rfl
  · have hink := h.ink
    simp only [typed_concat, lost_concat, finals_concat, typed?, lost?, finalText?,
      Option.getD_none,
      Option.getD_some, String.append_empty, Option.toList_none, List.append_nil, inkCount_append,
      inkCount_flushed, inkCount_empty]
    omega
  · intro hnone
    have hnone : lost log = [] := by simpa [lost?] using hnone
    obtain ⟨lead, k, hexact⟩ := h.exact hnone
    have hpending := h.pending
    exact hexact.land hmore (by rwa [Ne, ← joinedAll_eq_empty, ← hpending]) before

end Typing

/-! ## The text of a run -/

/-- An entry that brings no text and hands none over. -/
def isMute : Entry → Bool
  | .routed _ | .committed .. | .discarded _ => false
  | _ => true

section Run

variable {c : Controller} {l : Loop} {log : List Entry} {buffer : CommitBuffer}

theorem Typing.tell (h : Typing log buffer) {entries : List Entry}
    (hmute : ∀ e ∈ entries, isMute e = true) : Typing (log ++ entries) buffer := by
  induction entries generalizing log with
  | nil => simpa using h
  | cons e entries ih =>
    have hnext : Typing (log ++ [e]) buffer := by
      have he := hmute e List.mem_cons_self
      cases e <;> first
        | exact h.skip rfl rfl rfl (fun _ => trivial) rfl (Or.inl rfl)
        | cases he
    have hrest := ih hnext fun e he => hmute e (List.mem_cons_of_mem _ he)
    rwa [List.append_assoc, List.singleton_append] at hrest

theorem Typing.enterFinalizing (h : Typing c.log buffer) : Typing c.enterFinalizing.log buffer := by
  unfold Controller.enterFinalizing
  split_ifs
  · exact (@Typing.tell _ _ h [_] (by simp [isMute])).tell (by simp [isMute])
  · exact h

theorem Typing.flush (h : Typing c.log l.buffer) (reply : Reply) :
    Typing (c.flush l reply).1.log (c.flush l reply).2.buffer := by
  unfold Controller.flush CommitBuffer.flush
  by_cases hempty : l.buffer.pending = ""
  · simp only [if_pos hempty]
    exact h.tell (by simp)
  simp only [if_neg hempty]
  cases l.ending.writesAllowed with
  | false => exact h.lose rfl rfl rfl rfl rfl
  | true =>
    cases reply.answer with
    | ok u => exact h.land hempty reply.charBeforeCursor
    | error err => cases err <;> exact h.lose rfl rfl rfl rfl rfl

/-- An event that is not a `Final` ends a burst. -/
theorem boundary {event : OrchestratorEvent} (h : isFinal event = false) :
    finalText? (.routed event) = none ∧ (∀ past, SpacedAt past (.routed event)) ∧
      ∀ t : Tally, t.count (.routed event) = ⟨t.said ++ String.join t.burst, []⟩ := by
  cases event with
  | final text => cases h
  | _ => exact ⟨rfl, fun _ => trivial, fun _ => rfl⟩

/-- What an event does after the flush that precedes it. -/
theorem Typing.record (h : Typing c.log l.buffer) (event : OrchestratorEvent)
    (hflushed : isFinal event = false → l.buffer.pending = "") :
    Typing ((c.tell [.routed event]).record l event).1.log
      ((c.tell [.routed event]).record l event).2.buffer := by
  cases hfinal : isFinal event with
  | true =>
    obtain ⟨text, rfl⟩ : ∃ text, event = .final text := by
      cases event <;> first | exact ⟨_, rfl⟩ | cases hfinal
    exact h.final text
  | false =>
    have hempty := hflushed hfinal
    have hsaid : String.join (tally c.log).burst = "" := by
      rw [← joinedAll_eq_empty, ← h.pending, hempty]
    obtain ⟨hnone, hspaced, hcount⟩ := boundary hfinal
    have hrouted : Typing (c.tell [.routed event]).log l.buffer := by
      refine h.skip hnone rfl rfl hspaced ?_ (Or.inr ⟨hempty, ?_⟩)
      · rw [hcount, hsaid, String.append_empty]
      · rw [hcount]
    unfold Controller.record
    split
    · split_ifs
      · exact @Typing.tell _ _ hrouted [_] (by simp [isMute])
      · exact hrouted
    · exact hrouted.enterFinalizing
    · dsimp only
      split_ifs
      · exact hrouted
      · exact hrouted
    · exact hrouted.tell (by simp [isMute])
    · cases hfinal
    · exact hrouted

theorem Typing.showEvent (h : Typing c.log buffer) (tr : String → String) (l : Loop)
    (event : OrchestratorEvent) (quality : InputQuality) :
    Typing (c.showEvent tr l event quality).log buffer := by
  unfold Controller.showEvent
  split
  · exact h.tell (by simp [isMute])
  · exact h

theorem Typing.showPreedit (h : Typing c.log buffer) (l : Loop) (event : OrchestratorEvent)
    (preedit : Bool) : Typing (c.showPreedit l event preedit).log buffer := by
  unfold Controller.showPreedit
  split
  · split_ifs
    · exact h.tell (by simp [isMute])
    · exact h
  · exact h

theorem Typing.routeEvent (h : Typing c.log l.buffer) (tr : String → String)
    (event : OrchestratorEvent) (preedit : Bool) (quality : InputQuality) (reply : Reply) :
    Typing (c.routeEvent tr l event preedit quality reply).1.log
      (c.routeEvent tr l event preedit quality reply).2.buffer := by
  unfold Controller.routeEvent
  cases hfinal : isFinal event with
  | true =>
    have hrecord := h.record event (fun hnot => by rw [hfinal] at hnot; cases hnot)
    exact (hrecord.showEvent tr _ event quality).showPreedit _ event preedit
  | false =>
    have hrecord := (h.flush reply).record event
      (fun _ => CommitBuffer.pending_flush l.buffer l.ending.writesAllowed reply)
    exact (hrecord.showEvent tr _ event quality).showPreedit _ event preedit

theorem Typing.select (h : Typing c.log l.buffer) (tr : String → String)
    (capabilities : TextInputCapabilities) (branch : Branch) :
    Typing (c.select tr capabilities l branch).1.log
      (c.select tr capabilities l branch).2.buffer := by
  have hstop : ∀ {c : Controller} {buffer : CommitBuffer}, Typing c.log buffer →
      Typing (c.tell [.stopped]).log buffer := fun h => h.tell (by simp [isMute])
  have hresync : ∀ {c : Controller} {buffer : CommitBuffer}, Typing c.log buffer →
      Typing (c.tell [.resynced]).log buffer := fun h => h.tell (by simp [isMute])
  cases branch with
  | focus event =>
    cases event with
    | none => exact h
    | some event =>
      cases event with
      | focusOut =>
        have hlost : Typing (c.tell [.focus .focusOut, .stopped]).log l.buffer :=
          h.tell (by simp [isMute])
        exact hresync hlost.enterFinalizing
      | targetGone => exact h.tell (by simp [isMute])
  | edge edge =>
    cases edge with
    | none => exact (hstop h).enterFinalizing
    | some edge =>
      cases edge with
      | press => exact h.tell (by simp [isMute])
      | release =>
        have hreleased : Typing (c.tell [.activated, .stopped]).log l.buffer :=
          h.tell (by simp [isMute])
        exact hreleased.enterFinalizing
  | changed stats silence =>
    cases stats with
    | none => exact h
    | some stats =>
      unfold Controller.select
      dsimp only
      split_ifs
      · exact hresync (hstop h).enterFinalizing
      · exact h
  | result result => exact h
  | event event preedit stats reply =>
    cases event with
    | none => exact h
    | some event => exact h.routeEvent tr event _ _ reply

theorem Typing.advance (h : Typing c.log buffer) (next : DictationState) :
    Typing (c.advance next).log buffer :=
  h.tell (by simp [isMute])

theorem Typing.resync (h : Typing c.log buffer) : Typing (c.tell [.resynced]).log buffer :=
  h.tell (by simp [isMute])

theorem Typing.reportFailure (h : Typing c.log buffer) (headline detail : String) :
    Typing (c.reportFailure headline detail).log buffer :=
  h.tell (by simp [isMute])

theorem Typing.ensureFinalizing (h : Typing c.log buffer) :
    Typing c.ensureFinalizing.log buffer := by
  unfold Controller.ensureFinalizing
  split_ifs
  · exact h.advance .finalizing
  · exact h

theorem Typing.finalizeState (h : Typing c.log buffer) (terminal : DictationState) :
    Typing (c.finalizeState terminal).log buffer := by
  unfold Controller.finalizeState
  split
  · exact h.ensureFinalizing.advance .completed
  · exact h.advance terminal

theorem Typing.indicate (h : Typing c.log buffer) (shown : IndicatorState) :
    Typing (c.tell [.indicated shown]).log buffer :=
  h.tell (by simp [isMute])

theorem Typing.disposition (h : Typing c.log buffer) (tr : String → String) (l : Loop)
    (outcome : Except BackendError SessionOutcome) (quality : InputQuality) :
    Typing (c.disposition tr l outcome quality).log buffer := by
  unfold Controller.disposition
  split
  · next transcript =>
    have hshown := h.ensureFinalizing.indicate (completionIndicatorState tr transcript
      (l.ending.delivery l.buffer.dropped) quality (l.warning.map Prod.snd))
    refine Typing.finalizeState ?_ .completed
    exact hshown
  · exact (h.finalizeState .cancelled).resync
  · exact ((h.reportFailure _ _).finalizeState .error).resync
  · split_ifs
    · exact ((h.indicate _).finalizeState .cancelled).resync
    · exact ((h.reportFailure _ _).finalizeState .error).resync

theorem Typing.abort (h : Typing c.log buffer) (tr : String → String) (err : InjectError) :
    Typing (c.abortBeforeCapture tr err).log buffer :=
  (((h.reportFailure _ _).advance .error).resync).advance .idle

/-- What follows the loop: the last flush, and nothing more of the text. -/
theorem Typing.conclude (h : Typing c.log l.buffer) (tr : String → String)
    (outcome : Except BackendError SessionOutcome) (stats : AudioStats) (reply : Reply) :
    ∃ buffer, Typing (c.conclude tr l outcome stats reply).log buffer := by
  obtain ⟨buffer, hflushed⟩ : ∃ buffer,
      Typing (if isCompleted outcome then c.flush l reply else (c, l)).1.log buffer := by
    split_ifs
    · exact ⟨_, h.flush reply⟩
    · exact ⟨_, h⟩
  unfold Controller.conclude
  generalize (if isCompleted outcome then c.flush l reply else (c, l)) = after at hflushed ⊢
  obtain ⟨c, l⟩ := after
  dsimp only at hflushed ⊢
  have hreleased : Typing (c.tell [.released]).log buffer := hflushed.tell (by simp [isMute])
  have hheard : Typing (if 0 < (l.snapshot stats).captured then
      (c.tell [.released]).tell [.inputLevels ⟨(l.snapshot stats).offset,
        (l.snapshot stats).noiseFloor, (l.snapshot stats).speechLevel, (l.snapshot stats).snrDb⟩]
      else c.tell [.released]).log buffer := by
    split_ifs
    · exact hreleased.tell (by simp [isMute])
    · exact hreleased
  generalize (if 0 < (l.snapshot stats).captured then
      (c.tell [.released]).tell [.inputLevels ⟨(l.snapshot stats).offset,
        (l.snapshot stats).noiseFloor, (l.snapshot stats).speechLevel, (l.snapshot stats).snrDb⟩]
      else c.tell [.released]) = heard at hheard ⊢
  have hfinal : Typing (if l.ending = .targetGone then
      (heard.reportFailure (tr "Text field closed")
        "dictation target closed").finalizeState .cancelled
      else heard.disposition tr l outcome (inputQuality (l.snapshot stats))).log buffer := by
    split_ifs
    · exact (hheard.reportFailure _ _).finalizeState .cancelled
    · exact hheard.disposition tr l outcome _
  exact ⟨buffer, (hfinal.advance .idle).tell (by simp [isMute])⟩

/-- The buffer that goes with the log, by where the run is. -/
def Written (c : Controller) : Prop :=
  match c.stage with
  | .running l => Typing c.log l.buffer
  | .finished => ∃ buffer, Typing c.log buffer
  | _ => Typing c.log {}

theorem Step.written {tr : String → String} {capabilities : TextInputCapabilities}
    {c c' : Controller} (h : Written c) (hstep : Step tr capabilities c c') : Written c' := by
  cases hstep with
  | press hstage =>
    rw [Written, hstage] at h
    split_ifs
    · exact h.advance .starting
    · exact ⟨_, (h.advance .starting).abort tr .secureField⟩
  | refused err hstage =>
    rw [Written, hstage] at h
    exact ⟨_, h.abort tr err⟩
  | acquired tapped hstage =>
    rw [Written, hstage] at h
    have hacquired : Typing (c.tell [.acquired]).log {} := h.tell (by simp [isMute])
    exact (hacquired.advance .recording).indicate .recording
  | lose hstage =>
    have hsame : (c.tell [.lost]).stage = .running _ := hstage
    rw [Written, hstage] at h
    rw [Written, hsame]
    exact h.tell (by simp [isMute])
  | select branch hstage hopen henabled =>
    rw [Written, hstage] at h
    exact h.select tr capabilities branch
  | conclude stats reply hstage hevents hdone hhonest =>
    rw [Written, hstage] at h
    exact h.conclude tr _ stats reply

theorem run_typing {tr : String → String} {capabilities : TextInputCapabilities}
    {warned : List String} (h : StepSystem.Reachable (Step tr capabilities) { warned } c) :
    ∃ buffer, Typing c.log buffer := by
  have hstart : Written { warned } :=
    ⟨rfl, rfl, fun _ => ⟨"", 0, by simp [tally], fun _ => ⟨rfl, rfl⟩, nofun, Or.inl rfl, rfl,
      iff_of_true rfl History.lawful_nil, fun _ => ⟨rfl, rfl⟩, fun _ => rfl⟩⟩
  have hwritten : Written c := StepSystem.reachable_induction h hstart fun _ _ hw hstep =>
    hstep.written hw
  unfold Written at hwritten
  split at hwritten
  · exact ⟨_, hwritten⟩
  · exact hwritten
  · exact ⟨_, hwritten⟩

end Run

/-! ## What is typed is the transcript -/

section Transcript

variable {past later log : List Entry} {transcript : String} {buffer : CommitBuffer}

theorem finals_later (hlast : ∀ text, .routed (.final text) ∉ later) :
    finals (past ++ .routed (.done transcript) :: later) = finals past := by
  induction later using List.reverseRecOn with
  | nil => simp [finalText?]
  | append_singleton later e ih =>
    have he : finalText? e = none := by
      unfold finalText?
      split
      · exact absurd (List.mem_append_right _ (List.mem_singleton.mpr rfl)) (hlast _)
      · rfl
    rw [← List.cons_append, ← List.append_assoc, finals_concat, he, Option.getD_none,
      String.append_empty]
    exact ih fun text hmem => hlast text (List.mem_append_left _ hmem)

/-- Nothing waits behind the transcript. -/
theorem burst_later (hlast : ∀ text, .routed (.final text) ∉ later) :
    (tally (past ++ .routed (.done transcript) :: later)).burst = [] := by
  induction later using List.reverseRecOn with
  | nil =>
    rw [tally_concat]
    rfl
  | append_singleton later e ih =>
    have hburst := ih fun text hmem => hlast text (List.mem_append_left _ hmem)
    rw [← List.cons_append, ← List.append_assoc, tally_concat]
    cases e with
    | routed event =>
      cases event with
      | final text =>
        exact absurd (List.mem_append_right _ (List.mem_singleton.mpr rfl)) (hlast text)
      | _ => rfl
    | committed => rfl
    | discarded => rfl
    | _ => exact hburst

/-- What is typed has the ink of the transcript, and the rest is lost. -/
theorem Typing.lost_blank (h : Typing log buffer) (hempty : buffer.pending = "")
    (htyped : Typed log (finals log)) : ∀ text ∈ lost log, isBlank text = true := by
  have hink := h.ink
  rw [hempty, inkCount_empty] at hink
  have hsame : inkCount (typed log) = inkCount (finals log) := by
    rcases htyped with htyped | ⟨htyped, -⟩
    · rw [htyped]
    · rw [htyped, inkCount_append, inkCount_space, Nat.zero_add]
  have hnone : ((lost log).map inkCount).sum = 0 := by omega
  intro text hmem
  rw [isBlank_iff]
  exact List.sum_eq_zero_iff.mp hnone _ (List.mem_map_of_mem hmem)

/-- With nothing lost, the pieces are spaced exactly if no space was put between them. -/
theorem Exact.typed_iff {lead : String} {k : ℕ} (h : Exact log buffer lead k)
    (hempty : buffer.pending = "") : Typed log (finals log) ↔ Spaced log := by
  have howed : owed buffer = 0 := by simp [owed, hempty]
  have hlength := h.length
  have hhead := h.head
  rw [hempty, howed] at hlength
  rw [hempty, String.append_empty] at hhead
  have hnil : ("" : String).length = 0 := rfl
  have hspace : (" " : String).length = 1 := rfl
  rw [← h.spaced]
  constructor
  · rintro (htyped | ⟨htyped, c, -, hcontinues⟩)
    · rw [htyped] at hlength
      omega
    · rw [htyped, String.length_append] at hlength
      rcases h.leads with hlead | ⟨hlead, -⟩
      · -- the one space would stand first, but the text itself starts with no space
        have hfirst := hhead hlead
        rw [htyped] at hfirst
        rw [← continuesAfter_congr hfirst] at hcontinues
        simp [continuesAfter, isWhitespace] at hcontinues
      · rw [hlead] at hlength
        omega
  · intro hk
    obtain ⟨htext, hpending⟩ := h.text hk
    have hall : typed log = lead ++ finals log := by
      rw [htext, finals_eq_tally, ← hpending, hempty, String.append_empty]
    rcases h.leads with hlead | ⟨hlead, hasked⟩
    · rw [hlead, String.empty_append] at hall
      exact Or.inl hall
    · rw [hlead] at hall
      exact Or.inr ⟨hall, hasked⟩

/-- **What is typed is the transcript** that the server sent piece by piece, exactly if no piece is
lost and the pieces are spaced. -/
theorem typed_iff_spaced {tr : String → String} {capabilities : TextInputCapabilities}
    {warned : List String} {c : Controller}
    (h : StepSystem.Reachable (Step tr capabilities) { warned } c)
    (hlog : c.log = past ++ .routed (.done transcript) :: later)
    (hlast : ∀ text, .routed (.final text) ∉ later) (hverbatim : transcript = finals past)
    (hink : ∀ text ∈ lost c.log, isBlank text = false) :
    Typed c.log transcript ↔ lost c.log = [] ∧ Spaced c.log := by
  obtain ⟨buffer, htyping⟩ := run_typing h
  have hall : transcript = finals c.log := by rw [hlog, finals_later hlast, hverbatim]
  have hempty : buffer.pending = "" := by
    rw [htyping.pending, hlog, burst_later hlast]
    rfl
  rw [hall]
  constructor
  · intro htyped
    have hnone : lost c.log = [] := by
      refine List.eq_nil_iff_forall_not_mem.mpr fun text hmem => ?_
      have hblank := htyping.lost_blank hempty htyped text hmem
      rw [hink text hmem] at hblank
      cases hblank
    obtain ⟨lead, k, hexact⟩ := htyping.exact hnone
    exact ⟨hnone, (hexact.typed_iff hempty).mp htyped⟩
  · rintro ⟨hnone, hspaced⟩
    obtain ⟨lead, k, hexact⟩ := htyping.exact hnone
    exact (hexact.typed_iff hempty).mpr hspaced

end Transcript

/-- The session so far, in the runs below. -/
def heldLog : List Entry :=
  [.advanced .idle .starting, .acquired, .advanced .starting .recording, .indicated .recording]

/-- Pieces that bring their own space. -/
theorem english_typed : ∃ c, StepSystem.Reachable (Step id {}) {} c ∧
    (Typed c.log "Hello world" ↔ lost c.log = [] ∧ Spaced c.log) ∧ typed c.log = "Hello world" := by
  have hheld : Honest heldLog {} := by simp [Honest, heldLog]
  have hmore : ∀ log event, Honest log {} → Honest (log ++ [.routed event]) {} := by simp [Honest]
  have hreach := (((((Relation.ReflTransGen.refl (r := Step id {}) (a := {})).tail
    (.press rfl)).tail
    (.acquired false rfl)).tail
    (.select (.event (some (.final "Hello")) false {} {}) rfl (Or.inl rfl) ⟨rfl, hheld⟩)).tail
    (.select (.event (some (.final " world")) false {} {}) rfl (Or.inl rfl)
      ⟨rfl, hmore _ (.final "Hello") hheld⟩)).tail
    (.select (.event (some (.done "Hello world")) false {} {}) rfl (Or.inl rfl)
      ⟨rfl, hmore _ (.final " world") (hmore _ (.final "Hello") hheld)⟩)
  refine ⟨_, hreach, @typed_iff_spaced (heldLog ++ [.routed (.final "Hello"),
    .routed (.final " world"), .committed none "Hello world" "Hello world" (.ok ())])
    [.indicated .hidden] _ _ _ _ _ hreach rfl ?_ ?_ ?_, rfl⟩
  · simp
  · decide
  · intro text hmem
    change text ∈ [] at hmem
    cases hmem

/-- Pieces of a script written without spaces: a space is typed between them. -/
theorem chinese_not_typed : ∃ c past later, StepSystem.Reachable (Step id {}) {} c ∧
    c.stage = .finished ∧ c.log = past ++ .routed (.done "你好世界") :: later ∧
    (∀ text, .routed (.final text) ∉ later) ∧ "你好世界" = finals past ∧ lost c.log = [] ∧
    typed c.log = "你好 世界" ∧ ¬ Typed c.log "你好世界" := by
  have hheld : Honest heldLog {} := by simp [Honest, heldLog]
  have hmore : ∀ log event, Honest log {} → Honest (log ++ [.routed event]) {} := by simp [Honest]
  have hreach := ((((((((Relation.ReflTransGen.refl (r := Step id {}) (a := {})).tail
    (.press rfl)).tail
    (.acquired false rfl)).tail
    (.select (.event (some (.final "你好")) false {} {}) rfl (Or.inl rfl) ⟨rfl, hheld⟩)).tail
    (.select (.event (some (.final "世界")) false {} {}) rfl (Or.inl rfl)
      ⟨rfl, hmore _ (.final "你好") hheld⟩)).tail
    (.select (.event (some (.done "你好世界")) false {} {}) rfl (Or.inl rfl)
      ⟨rfl, hmore _ (.final "世界") (hmore _ (.final "你好") hheld)⟩)).tail
    (.select (.result (.ok (.completed "你好世界"))) rfl (Or.inl rfl) rfl)).tail
    (.select (.event none false {} { answer := .error .focusLost }) rfl (Or.inl rfl)
      ⟨rfl, fun _ hok => by cases hok⟩)).tail
    (.conclude {} { answer := .error .focusLost } rfl rfl rfl fun _ hok => by cases hok)
  refine ⟨_, heldLog ++ [.routed (.final "你好"), .routed (.final "世界"),
    .committed none "你好 世界" "你好 世界" (.ok ())], [.indicated .hidden, .released,
    .advanced .recording .finalizing, .indicated .hidden, .advanced .finalizing .completed,
    .advanced .completed .idle, .discardedPending], hreach, rfl, rfl, ?_, ?_, rfl, rfl, ?_⟩
  · simp
  · decide
  · rintro (htyped | ⟨htyped, -⟩)
    · exact absurd (show "你好 世界" = "你好世界" from htyped) (by decide)
    · exact absurd (show "你好 世界" = " " ++ "你好世界" from htyped) (by decide)

end Controller

end Desktop

end Myna
