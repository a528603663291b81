import Mathlib.Data.List.Dedup
import Myna.Lib.Strip
import Myna.Desktop.CommitBuffer

/-!
# Myna — the keywords of a session (`normalize_keywords`, client and server)

The client's `myna_core::session` trims a vocabulary list, drops empty entries and duplicates and
cuts it to the limits, so that the server's `myna.core.session` has no reason to refuse it; the
server trims once more and refuses what is past the limits.

* **`Client.normalizeKeywords`**, **`Server.normalizeKeywords`** — the two functions;
* **`Looked`** — the entries the client's loop looks at before it has enough keywords;
* **`Client.mem_normalizeKeywords`** — its keywords are the cut entries among these;
* **`agree_iff`** — the server takes the client's list as it is exactly when no cut entry has
  whitespace at an end: an entry is cut after it has been trimmed, and the server's whitespace is
  wider than the client's.
-/

namespace Myna

namespace Keywords

def KEYWORDS_MAX_ENTRIES : ℕ := 100

def KEYWORDS_MAX_ENTRY_CHARS : ℕ := 64

/-! ## The client -/

namespace Client

/-- `str::trim`. -/
def trim (entry : String) : String := String.ofList (entry.toList.strip Desktop.isWhitespace)

/-- The first `KEYWORDS_MAX_ENTRY_CHARS` characters of the trimmed entry. -/
def capped (entry : String) : String :=
  String.ofList ((trim entry).toList.take KEYWORDS_MAX_ENTRY_CHARS)

/-- The loop over the entries, with the `seen` set and the keywords collected so far. -/
def collect : List String → List String → List String → List String
  | [], _, out => out
  | entry :: entries, seen, out =>
    if (trim entry).isEmpty then collect entries seen out
    else if capped entry ∈ seen then collect entries seen out
    else if (out ++ [capped entry]).length = KEYWORDS_MAX_ENTRIES then out ++ [capped entry]
    else collect entries (capped entry :: seen) (out ++ [capped entry])

def normalizeKeywords (entries : List String) : List String := collect entries [] []

end Client

/-! ## The server -/

namespace Server

/-- What `str.strip()` strips: the property `White_Space`, and the four information separators. -/
def isSpace (c : Char) : Bool := Desktop.isWhitespace c || (0x1C ≤ c.toNat && c.toNat ≤ 0x1F)

/-- `str.strip()`. -/
def strip (entry : String) : String := String.ofList (entry.toList.strip isSpace)

/-- The two `ValueError`s: with the number of keywords, and with the keyword. -/
inductive ValueError
  | tooMany (count : ℕ)
  | tooLong (entry : String)
deriving DecidableEq

def normalizeKeywords (entries : List String) : Except ValueError (List String) :=
  let trimmed := (entries.filter fun e => !e.isEmpty && !(strip e).isEmpty).map strip
  if KEYWORDS_MAX_ENTRIES < trimmed.length then .error (.tooMany trimmed.length)
  else
    match trimmed.find? fun entry => KEYWORDS_MAX_ENTRY_CHARS < entry.length with
    | some entry => .error (.tooLong entry)
    | none => .ok trimmed

end Server

/-! ## What the client's loop looks at -/

/-- The distinct keywords of the entries, were there no limit to their number. -/
def distinct (entries : List String) : List String :=
  ((entries.map Client.capped).filter fun keyword => !keyword.isEmpty).dedup

/-- The loop looks at `entry`: those before it make fewer keywords than the limit. -/
def Looked (entries : List String) (entry : String) : Prop :=
  ∃ before after, entries = before ++ entry :: after ∧
    (distinct before).length < KEYWORDS_MAX_ENTRIES

theorem mem_distinct {entries : List String} {keyword : String} :
    keyword ∈ distinct entries ↔
      ∃ entry ∈ entries, (Client.capped entry).isEmpty = false ∧ Client.capped entry = keyword := by
  simp only [distinct, List.mem_dedup, List.mem_filter, List.mem_map, Bool.not_eq_true']
  constructor
  · rintro ⟨⟨entry, hmem, rfl⟩, hne⟩
    exact ⟨entry, hmem, hne, rfl⟩
  · rintro ⟨entry, hmem, hne, rfl⟩
    exact ⟨⟨entry, hmem, rfl⟩, hne⟩

theorem distinct_length_mono (before more : List String) :
    (distinct before).length ≤ (distinct (before ++ more)).length := by
  have hsub : distinct before ⊆ distinct (before ++ more) := by
    intro keyword hmem
    obtain ⟨entry, hin, hrest⟩ := mem_distinct.mp hmem
    exact mem_distinct.mpr ⟨entry, List.mem_append_left _ hin, hrest⟩
  exact ((List.nodup_dedup _).subperm hsub).length_le

/-- The loop looks at `entry` once it is past `before`. -/
def LookedAfter (before entries : List String) (entry : String) : Prop :=
  ∃ mid after, entries = mid ++ entry :: after ∧
    (distinct (before ++ mid)).length < KEYWORDS_MAX_ENTRIES

theorem looked_iff {entries : List String} {entry : String} :
    Looked entries entry ↔ LookedAfter [] entries entry := by
  simp [Looked, LookedAfter]

theorem lookedAfter_cons {before entries : List String} {first entry : String} :
    LookedAfter before (first :: entries) entry ↔
      entry = first ∧ (distinct before).length < KEYWORDS_MAX_ENTRIES ∨
        LookedAfter (before ++ [first]) entries entry := by
  constructor
  · rintro ⟨mid, after, hsplit, hlt⟩
    cases mid with
    | nil =>
      obtain ⟨rfl, rfl⟩ := List.cons.inj hsplit
      exact .inl ⟨rfl, by simpa using hlt⟩
    | cons head mid =>
      obtain ⟨rfl, rfl⟩ := List.cons.inj hsplit
      exact .inr ⟨mid, after, rfl, by simpa using hlt⟩
  · rintro (⟨rfl, hlt⟩ | ⟨mid, after, rfl, hlt⟩)
    · exact ⟨[], entries, rfl, by simpa using hlt⟩
    · exact ⟨first :: mid, after, rfl, by simpa using hlt⟩

/-! ## What the client's loop collects -/

namespace Client

@[simp] theorem toList_trim (entry : String) :
    (trim entry).toList = entry.toList.strip Desktop.isWhitespace := by
  simp [trim]

@[simp] theorem toList_capped (entry : String) :
    (capped entry).toList =
      (entry.toList.strip Desktop.isWhitespace).take KEYWORDS_MAX_ENTRY_CHARS := by
  simp [capped]

theorem isEmpty_eq_toList (text : String) : text.isEmpty = text.toList.isEmpty := by
  rw [Bool.eq_iff_iff, String.isEmpty_iff, List.isEmpty_iff, String.toList_eq_nil_iff]

theorem isEmpty_capped (entry : String) : (capped entry).isEmpty = (trim entry).isEmpty := by
  rw [isEmpty_eq_toList, isEmpty_eq_toList, toList_capped, toList_trim]
  cases entry.toList.strip Desktop.isWhitespace <;> rfl

theorem length_capped (entry : String) : (capped entry).length ≤ KEYWORDS_MAX_ENTRY_CHARS := by
  rw [← String.length_toList, toList_capped]
  exact List.length_take_le _ _

theorem trim_eq_self_iff {entry : String} :
    trim entry = entry ↔ entry.toList.Clean Desktop.isWhitespace := by
  rw [← String.toList_inj, toList_trim, List.strip_eq_self_iff]

/-- An entry that is trimmed and short is its own keyword. -/
theorem capped_eq_self {entry : String} (htrim : trim entry = entry)
    (hlength : entry.length ≤ KEYWORDS_MAX_ENTRY_CHARS) : capped entry = entry := by
  unfold capped
  rw [htrim, List.take_of_length_le (by rwa [String.length_toList]), String.ofList_toList]

/-- Where the loop stands after `before`. -/
structure Collected (before seen out : List String) : Prop where
  nodup : out.Nodup
  room : out.length < KEYWORDS_MAX_ENTRIES
  seen_iff : ∀ keyword, keyword ∈ seen ↔ keyword ∈ out
  out_iff : ∀ keyword, keyword ∈ out ↔ keyword ∈ distinct before

theorem Collected.init : Collected [] [] [] :=
  ⟨List.nodup_nil, by decide, by simp, by simp [distinct]⟩

theorem length_eq_distinct {before out : List String} (hnodup : out.Nodup)
    (hout : ∀ keyword, keyword ∈ out ↔ keyword ∈ distinct before) :
    out.length = (distinct before).length :=
  ((List.perm_ext_iff_of_nodup hnodup (List.nodup_dedup _)).mpr hout).length_eq

section Step

variable {before seen out : List String} {entry : String}

theorem distinct_skip (hskip : (trim entry).isEmpty = true ∨ capped entry ∈ distinct before)
    (keyword : String) : keyword ∈ distinct (before ++ [entry]) ↔ keyword ∈ distinct before := by
  constructor
  · intro hmem
    obtain ⟨e, hin, hne, rfl⟩ := mem_distinct.mp hmem
    rcases List.mem_append.mp hin with hin | hin
    · exact mem_distinct.mpr ⟨e, hin, hne, rfl⟩
    · obtain rfl := List.mem_singleton.mp hin
      rcases hskip with hempty | hdup
      · rw [isEmpty_capped, hempty] at hne
        cases hne
      · exact hdup
  · intro hmem
    obtain ⟨e, hin, hrest⟩ := mem_distinct.mp hmem
    exact mem_distinct.mpr ⟨e, List.mem_append_left _ hin, hrest⟩

theorem Collected.skip (h : Collected before seen out)
    (hskip : (trim entry).isEmpty = true ∨ capped entry ∈ seen) :
    Collected (before ++ [entry]) seen out := by
  refine { h with out_iff := fun keyword => ?_ }
  rw [h.out_iff, distinct_skip]
  exact hskip.imp_right fun hdup => (h.out_iff _).mp ((h.seen_iff _).mp hdup)

theorem Collected.push_iff (h : Collected before seen out) (hne : (trim entry).isEmpty = false)
    (keyword : String) :
    keyword ∈ out ++ [capped entry] ↔ keyword ∈ distinct (before ++ [entry]) := by
  rw [List.mem_append, List.mem_singleton, h.out_iff, mem_distinct, mem_distinct]
  constructor
  · rintro (⟨e, hin, hrest⟩ | rfl)
    · exact ⟨e, List.mem_append_left _ hin, hrest⟩
    · exact ⟨entry, by simp, by rw [isEmpty_capped, hne], rfl⟩
  · rintro ⟨e, hin, hne', rfl⟩
    rcases List.mem_append.mp hin with hin | hin
    · exact .inl ⟨e, hin, hne', rfl⟩
    · exact .inr (by rw [List.mem_singleton.mp hin])

theorem Collected.push_nodup (h : Collected before seen out) (hnew : capped entry ∉ seen) :
    (out ++ [capped entry]).Nodup := by
  rw [List.nodup_append_comm]
  exact List.nodup_cons.mpr ⟨mt (h.seen_iff _).mpr hnew, h.nodup⟩

end Step

/-- **What the loop collects**: distinct keywords, within the limit, and these are the cut entries
it looks at. Induction on the entries. -/
theorem collect_spec {before : List String} : ∀ {entries seen out : List String},
    Collected before seen out →
      (collect entries seen out).Nodup ∧
        (collect entries seen out).length ≤ KEYWORDS_MAX_ENTRIES ∧
        ∀ keyword, keyword ∈ collect entries seen out ↔
          keyword ∈ out ∨ ∃ entry, LookedAfter before entries entry ∧
            (trim entry).isEmpty = false ∧ capped entry = keyword := by
  intro entries
  induction entries generalizing before with
  | nil =>
    intro seen out h
    refine ⟨h.nodup, h.room.le, fun keyword => ?_⟩
    simp [collect, LookedAfter]
  | cons entry entries ih =>
    intro seen out h
    have hroom : (distinct before).length < KEYWORDS_MAX_ENTRIES :=
      length_eq_distinct h.nodup h.out_iff ▸ h.room
    by_cases hempty : (trim entry).isEmpty = true
    · -- a blank entry is passed over
      have hstep : collect (entry :: entries) seen out = collect entries seen out := by
        rw [collect, if_pos hempty]
      obtain ⟨hnodup, hlength, hmem⟩ := ih (h.skip (.inl hempty))
      rw [hstep]
      refine ⟨hnodup, hlength, fun keyword => ?_⟩
      rw [hmem]
      refine or_congr_right (exists_congr fun e => ?_)
      rw [lookedAfter_cons]
      constructor
      · rintro ⟨hlook, hrest⟩
        exact ⟨.inr hlook, hrest⟩
      · rintro ⟨⟨rfl, -⟩ | hlook, hne, hrest⟩
        · rw [hempty] at hne
          cases hne
        · exact ⟨hlook, hne, hrest⟩
    · by_cases hseen : capped entry ∈ seen
      · -- so is a keyword that was seen
        have hstep : collect (entry :: entries) seen out = collect entries seen out := by
          rw [collect, if_neg hempty, if_pos hseen]
        obtain ⟨hnodup, hlength, hmem⟩ := ih (h.skip (.inr hseen))
        rw [hstep]
        refine ⟨hnodup, hlength, fun keyword => ?_⟩
        rw [hmem]
        constructor
        · rintro (hout | ⟨e, hlook, hrest⟩)
          · exact .inl hout
          · exact .inr ⟨e, lookedAfter_cons.mpr (.inr hlook), hrest⟩
        · rintro (hout | ⟨e, hlook, hne, rfl⟩)
          · exact .inl hout
          · rcases lookedAfter_cons.mp hlook with ⟨rfl, -⟩ | hlook
            · exact .inl ((h.seen_iff _).mp hseen)
            · exact .inr ⟨e, hlook, hne, rfl⟩
      · have hne : (trim entry).isEmpty = false := by simpa using hempty
        have hnodup' := h.push_nodup hseen
        have hiff' := h.push_iff hne
        have hcount := length_eq_distinct hnodup' hiff'
        by_cases hfull : (out ++ [capped entry]).length = KEYWORDS_MAX_ENTRIES
        · -- the last keyword: nothing after it is looked at
          have hstep : collect (entry :: entries) seen out = out ++ [capped entry] := by
            rw [collect, if_neg hempty, if_neg hseen, if_pos hfull]
          rw [hstep]
          refine ⟨hnodup', hfull.le, fun keyword => ?_⟩
          rw [List.mem_append, List.mem_singleton]
          refine or_congr_right ⟨?_, ?_⟩
          · rintro rfl
            exact ⟨entry, lookedAfter_cons.mpr (.inl ⟨rfl, hroom⟩), hne, rfl⟩
          · rintro ⟨e, hlook, -, rfl⟩
            rcases lookedAfter_cons.mp hlook with ⟨rfl, -⟩ | ⟨mid, after, -, hlt⟩
            · rfl
            · have := distinct_length_mono (before ++ [entry]) mid
              omega
        · have hstep : collect (entry :: entries) seen out =
              collect entries (capped entry :: seen) (out ++ [capped entry]) := by
            rw [collect, if_neg hempty, if_neg hseen, if_neg hfull]
          have hroom' : (out ++ [capped entry]).length < KEYWORDS_MAX_ENTRIES := by
            have := h.room
            simp only [List.length_append, List.length_singleton] at hfull ⊢
            omega
          have h' : Collected (before ++ [entry]) (capped entry :: seen)
              (out ++ [capped entry]) := by
            refine ⟨hnodup', hroom', fun keyword => ?_, hiff'⟩
            rw [List.mem_cons, h.seen_iff, List.mem_append, List.mem_singleton, or_comm]
          obtain ⟨hnodup, hlength, hmem⟩ := ih h'
          rw [hstep]
          refine ⟨hnodup, hlength, fun keyword => ?_⟩
          rw [hmem, List.mem_append, List.mem_singleton, or_assoc]
          refine or_congr_right ?_
          constructor
          · rintro (rfl | ⟨e, hlook, hrest⟩)
            · exact ⟨entry, lookedAfter_cons.mpr (.inl ⟨rfl, hroom⟩), hne, rfl⟩
            · exact ⟨e, lookedAfter_cons.mpr (.inr hlook), hrest⟩
          · rintro ⟨e, hlook, hne', rfl⟩
            rcases lookedAfter_cons.mp hlook with ⟨rfl, -⟩ | hlook
            · exact .inl rfl
            · exact .inr ⟨e, hlook, hne', rfl⟩

theorem nodup_normalizeKeywords (entries : List String) : (normalizeKeywords entries).Nodup :=
  (collect_spec Collected.init).1

theorem length_normalizeKeywords (entries : List String) :
    (normalizeKeywords entries).length ≤ KEYWORDS_MAX_ENTRIES :=
  (collect_spec Collected.init).2.1

/-- **The client's keywords are the cut entries its loop looks at.** -/
theorem mem_normalizeKeywords {entries : List String} {keyword : String} :
    keyword ∈ normalizeKeywords entries ↔
      ∃ entry, Looked entries entry ∧ (trim entry).isEmpty = false ∧ capped entry = keyword := by
  unfold normalizeKeywords
  rw [(collect_spec Collected.init).2.2]
  simp [looked_iff]

/-- Keywords that are trimmed, short and distinct are collected as they are. -/
theorem collect_eq_append : ∀ {keywords seen out : List String},
    (∀ keyword, keyword ∈ seen ↔ keyword ∈ out) → (out ++ keywords).Nodup →
      (out ++ keywords).length ≤ KEYWORDS_MAX_ENTRIES →
      (∀ keyword ∈ keywords, keyword.isEmpty = false ∧ trim keyword = keyword ∧
        keyword.length ≤ KEYWORDS_MAX_ENTRY_CHARS) →
      collect keywords seen out = out ++ keywords
  | [], _, out, _, _, _, _ => by simp [collect]
  | keyword :: keywords, seen, out, hseen, hnodup, hlength, hnormal => by
    obtain ⟨hne, htrim, hshort⟩ := hnormal keyword (by simp)
    have hcapped := capped_eq_self htrim hshort
    have hnew : keyword ∉ seen := by
      have hnotin := (List.nodup_cons.mp (List.nodup_middle.mp hnodup)).1
      rw [hseen]
      exact fun hout => hnotin (List.mem_append_left _ hout)
    rw [collect, htrim, hcapped, if_neg (by simp [hne]), if_neg hnew]
    by_cases hfull : (out ++ [keyword]).length = KEYWORDS_MAX_ENTRIES
    · -- the limit is reached: there are no more keywords
      rw [if_pos hfull]
      have hnil : keywords = [] := by
        rw [← List.length_eq_zero_iff]
        simp only [List.length_append, List.length_cons, List.length_nil] at hfull hlength
        omega
      rw [hnil]
    · rw [if_neg hfull, collect_eq_append (fun k => ?_) (by simpa using hnodup)
        (by simpa using hlength) fun k hk => hnormal k (List.mem_cons_of_mem _ hk)]
      · simp
      · rw [List.mem_cons, hseen, List.mem_append, List.mem_singleton, or_comm]

end Client

/-! ## What the server makes of it -/

namespace Server

theorem isSpace_of_isWhitespace (c : Char) (h : Desktop.isWhitespace c = true) :
    isSpace c = true := by
  simp [isSpace, h]

theorem strip_eq_self_iff {entry : String} : strip entry = entry ↔ entry.toList.Clean isSpace := by
  unfold strip
  rw [← String.toList_inj, String.toList_ofList, List.strip_eq_self_iff]

/-- A list the server accepts as it is holds stripped keywords only: none was dropped, as the
lengths agree. -/
theorem strip_of_accepted {entries : List String}
    (h : normalizeKeywords entries = .ok entries) : ∀ entry ∈ entries, strip entry = entry := by
  have hmap : (entries.filter fun e => !e.isEmpty && !(strip e).isEmpty).map strip = entries := by
    simp only [normalizeKeywords] at h
    split at h
    · cases h
    · split at h
      · cases h
      · exact Except.ok.inj h
  have hall : (entries.filter fun e => !e.isEmpty && !(strip e).isEmpty) = entries := by
    refine List.filter_sublist.eq_of_length ?_
    calc _ = ((entries.filter fun e => !e.isEmpty && !(strip e).isEmpty).map strip).length := by
          rw [List.length_map]
      _ = entries.length := by rw [hmap]
  rw [hall] at hmap
  exact List.map_inj_left.mp (hmap.trans (List.map_id entries).symm)

/-- Stripped keywords within the limits are accepted as they are. -/
theorem accepts {entries : List String} (hcount : entries.length ≤ KEYWORDS_MAX_ENTRIES)
    (hentry : ∀ entry ∈ entries, entry.isEmpty = false ∧ strip entry = entry ∧
      entry.length ≤ KEYWORDS_MAX_ENTRY_CHARS) : normalizeKeywords entries = .ok entries := by
  have hall : (entries.filter fun e => !e.isEmpty && !(strip e).isEmpty) = entries := by
    rw [List.filter_eq_self]
    intro entry hmem
    obtain ⟨hne, hstrip, -⟩ := hentry entry hmem
    simp [hstrip, hne]
  have hmap : entries.map strip = entries :=
    (List.map_inj_left.mpr fun entry hmem => (hentry entry hmem).2.1).trans (List.map_id entries)
  have hshort : (entries.find? fun entry => KEYWORDS_MAX_ENTRY_CHARS < entry.length) = none := by
    rw [List.find?_eq_none]
    intro entry hmem
    simpa using (hentry entry hmem).2.2
  unfold normalizeKeywords
  rw [hall, hmap, if_neg (not_lt.mpr hcount), hshort]

end Server

theorem trim_of_strip {keyword : String} (h : Server.strip keyword = keyword) :
    Client.trim keyword = keyword :=
  Client.trim_eq_self_iff.mpr
    ((Server.strip_eq_self_iff.mp h).mono Server.isSpace_of_isWhitespace)

/-- The server takes the client's keywords as they are, and so does the client. -/
def Agree (entries : List String) : Prop :=
  Server.normalizeKeywords (Client.normalizeKeywords entries) =
      .ok (Client.normalizeKeywords entries) ∧
    (∀ keyword ∈ Client.normalizeKeywords entries, keyword.isEmpty = false ∧
      Client.trim keyword = keyword ∧ Server.strip keyword = keyword ∧
      keyword.length ≤ KEYWORDS_MAX_ENTRY_CHARS) ∧
    (Client.normalizeKeywords entries).Nodup ∧
    (Client.normalizeKeywords entries).length ≤ KEYWORDS_MAX_ENTRIES ∧
    Client.normalizeKeywords (Client.normalizeKeywords entries) = Client.normalizeKeywords entries

/-- **Client and server agree on keywords exactly when no entry that is looked at, trimmed and cut,
has at an end what the server strips.** -/
theorem agree_iff (entries : List String) :
    Agree entries ↔
      ∀ entry, Looked entries entry → (Client.capped entry).toList.Clean Server.isSpace := by
  constructor
  · rintro ⟨haccepted, -⟩ entry hlook
    by_cases hempty : (Client.trim entry).isEmpty = true
    · have hnil : Client.capped entry = "" := by
        rw [← String.isEmpty_iff, Client.isEmpty_capped, hempty]
      rw [hnil]
      exact List.Clean.nil
    · have hmem : Client.capped entry ∈ Client.normalizeKeywords entries :=
        Client.mem_normalizeKeywords.mpr ⟨entry, hlook, by simpa using hempty, rfl⟩
      exact Server.strip_eq_self_iff.mp (Server.strip_of_accepted haccepted _ hmem)
  · intro hclean
    have hkeyword : ∀ keyword ∈ Client.normalizeKeywords entries, keyword.isEmpty = false ∧
        Server.strip keyword = keyword ∧ keyword.length ≤ KEYWORDS_MAX_ENTRY_CHARS := by
      intro keyword hmem
      obtain ⟨entry, hlook, hne, rfl⟩ := Client.mem_normalizeKeywords.mp hmem
      exact ⟨by rw [Client.isEmpty_capped, hne], Server.strip_eq_self_iff.mpr (hclean entry hlook),
        Client.length_capped entry⟩
    have hcount := Client.length_normalizeKeywords entries
    have hnodup := Client.nodup_normalizeKeywords entries
    refine ⟨Server.accepts hcount hkeyword, ?_, hnodup, hcount, ?_⟩
    · intro keyword hmem
      obtain ⟨hne, hstrip, hshort⟩ := hkeyword keyword hmem
      exact ⟨hne, trim_of_strip hstrip, hstrip, hshort⟩
    · refine Client.collect_eq_append (by simp) (by simpa using hnodup) (by simpa using hcount) ?_
      intro keyword hmem
      obtain ⟨hne, hstrip, hshort⟩ := hkeyword keyword hmem
      exact ⟨hne, trim_of_strip hstrip, hshort⟩

/-- A phrase whose 64th character is a space is cut there. -/
def phrase : String := String.ofList (List.replicate 63 'a' ++ [' ', 'b'])

/-- What is left of it ends in a space, which both sides strip when they see it again. -/
theorem phrase_not_agree : ¬ Agree [phrase] := by
  rintro ⟨-, -, -, -, hagain⟩
  exact absurd hagain (by decide +kernel)

end Keywords

end Myna
