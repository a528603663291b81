import Myna.Desktop.CommitBuffer
import Myna.Lib.Dict
import Myna.Lib.Lines
import Myna.Lib.Strip

/-!
# Myna — `provider.env`, written and read

The server (`myna.server.provider_env`) writes `KEY=value` lines as they are, and refuses a value
with a line break. The client (`myna_orchestrator::backend::share`) trims a value and strips a pair
of quotes from it.

* **`parseEnv_render`** — what the client reads;
* **`provider_env_agrees_iff`** — when that is what the server wrote.
-/

namespace Myna

namespace Orchestrator

namespace ProviderEnv

/-! ## The server -/

/-- The identity that a provider shares. -/
structure Fields where
  snapName : List Char
  instanceName : List Char
  socketName : List Char

def Fields.pairs (f : Fields) : List (List Char × List Char) :=
  [("SNAP_NAME".toList, f.snapName), ("SNAP_INSTANCE_NAME".toList, f.instanceName),
    ("UNIX_SOCKET".toList, f.socketName)]

/-- `render`; none is its `ValueError`. -/
def render (f : Fields) : Option (List Char) :=
  if f.pairs.any fun field => field.2.contains '\n' || field.2.contains '\r' then none
  else some (f.pairs.flatMap fun field => field.1 ++ '=' :: field.2 ++ ['\n'])

/-! ## The client -/

/-- `str::trim`. -/
def trim (text : List Char) : List Char := text.strip Desktop.isWhitespace

/-- `value.strip_prefix(q).and_then(|rest| rest.strip_suffix(q))`. -/
def unquotedBy (q : Char) : List Char → Option (List Char)
  | c :: rest => if c = q then rest.stripSuffix [q] else none
  | [] => none

/-- The double quote, and the single one. -/
def QUOTES : List Char := ['"', '\x27']

def unquoted (value : List Char) : List Char :=
  (QUOTES.findSome? fun q => unquotedBy q value).getD value

/-- One line of the loop. -/
def parseLine (env : Dict (List Char) (List Char)) (line : List Char) :
    Option (Dict (List Char) (List Char)) :=
  if line = [] ∨ line.head? = some '#' then some env
  else
    match List.splitOnce ['='] line with
    | none => none
    | some (key, value) =>
      let key := trim key
      if key = [] then none else some (env.set key (unquoted (trim value)))

def parseEnv (text : List Char) : Option (Dict (List Char) (List Char)) :=
  ((Lines.lines text).map trim).foldlM parseLine []

/-! ## A line that was written -/

variable {key value : List Char}

/-- A name on the left of an assignment that no reader changes. -/
structure IsKey (key : List Char) : Prop where
  ne_nil : key ≠ []
  clean : key.Clean Desktop.isWhitespace
  bare : '=' ∉ key
  comment : key.head? ≠ some '#'
  oneLine : '\n' ∉ key

/-- The end of a line is trimmed with its value. -/
theorem trim_assignment (hkey : IsKey key) (value : List Char) :
    trim (key ++ '=' :: value) = key ++ '=' :: value.rdropWhile Desktop.isWhitespace := by
  have hhead : (key ++ '=' :: value).dropWhile Desktop.isWhitespace = key ++ '=' :: value := by
    apply List.dropWhile_eq_self_of_head
    intro c hc
    cases key with
    | nil => exact absurd rfl hkey.ne_nil
    | cons d key => exact hkey.clean.1 c hc
  have htail : (key ++ '=' :: value.rdropWhile Desktop.isWhitespace).rdropWhile
      Desktop.isWhitespace = key ++ '=' :: value.rdropWhile Desktop.isWhitespace := by
    apply List.rdropWhile_eq_self_of_getLast
    intro c hc
    rw [List.getLast?_append, List.getLast?_cons] at hc
    cases hlast : (value.rdropWhile Desktop.isWhitespace).getLast? with
    | none =>
      rw [hlast] at hc
      cases hc
      decide
    | some d =>
      rw [hlast] at hc
      cases hc
      have hne : value.rdropWhile Desktop.isWhitespace ≠ [] := by
        intro hnil
        rw [hnil] at hlast
        cases hlast
      have hnot := List.rdropWhile_last_not Desktop.isWhitespace value hne
      rw [List.getLast?_eq_some_getLast hne] at hlast
      rw [Option.some.inj hlast] at hnot
      exact Bool.eq_false_of_not_eq_true hnot
  have hsplit : key ++ '=' :: value = (key ++ '=' :: value.rdropWhile Desktop.isWhitespace) ++
      value.rtakeWhile Desktop.isWhitespace := by
    rw [List.append_assoc, List.cons_append, List.rdropWhile_append_rtakeWhile]
  show ((key ++ '=' :: value).dropWhile Desktop.isWhitespace).rdropWhile Desktop.isWhitespace = _
  rw [hhead, hsplit, List.rdropWhile_append_of_all _ fun c hc => List.mem_rtakeWhile_imp hc, htail]

theorem parseLine_assignment (env : Dict (List Char) (List Char)) (hkey : IsKey key)
    (value : List Char) :
    parseLine env (trim (key ++ '=' :: value)) = some (env.set key (unquoted (trim value))) := by
  have hsplit : List.splitOnce ['='] (key ++ '=' :: value.rdropWhile Desktop.isWhitespace) =
      some (key, value.rdropWhile Desktop.isWhitespace) :=
    List.splitOnce_singleton.mpr ⟨rfl, hkey.bare⟩
  have hcomment : ¬ (key ++ '=' :: value.rdropWhile Desktop.isWhitespace = [] ∨
      (key ++ '=' :: value.rdropWhile Desktop.isWhitespace).head? = some '#') := by
    cases key with
    | nil => exact absurd rfl hkey.ne_nil
    | cons c key => simpa using hkey.comment
  have hname : trim key = key := List.strip_of_clean hkey.clean
  have hvalue : trim (value.rdropWhile Desktop.isWhitespace) = trim value :=
    List.strip_rdropWhile value
  rw [trim_assignment hkey, parseLine, if_neg hcomment, hsplit]
  dsimp only
  rw [hname, hvalue, if_neg hkey.ne_nil]

/-! ## What is read -/

/-- A value that no reader changes: its ends are no whitespace, and it is in no quotes. -/
structure Plain (value : List Char) : Prop where
  clean : value.Clean Desktop.isWhitespace
  bare : ∀ q ∈ QUOTES, ∀ inner, value ≠ q :: (inner ++ [q])

theorem unquotedBy_eq_some {q : Char} {inner : List Char} :
    unquotedBy q value = some inner ↔ value = q :: (inner ++ [q]) := by
  cases value with
  | nil => simp [unquotedBy]
  | cons c rest =>
    show (if c = q then rest.stripSuffix [q] else none) = some inner ↔ _
    by_cases hc : c = q
    · rw [if_pos hc, List.stripSuffix_eq_some, hc]
      simp
    · rw [if_neg hc]
      simp [hc]

theorem length_trim (value : List Char) : (trim value).length ≤ value.length :=
  (List.rdropWhile_prefix _ _).length_le.trans (List.dropWhile_suffix _).length_le

/-- What is read is what was written, of a plain value only. -/
theorem unquoted_trim_iff : unquoted (trim value) = value ↔ Plain value := by
  constructor
  · intro h
    unfold unquoted at h
    cases hquoted : QUOTES.findSome? fun q => unquotedBy q (trim value) with
    | none =>
      rw [hquoted, Option.getD_none] at h
      refine ⟨List.strip_eq_self_iff.mp h, ?_⟩
      intro q hq inner hinner
      have hnone := List.findSome?_eq_none_iff.mp hquoted q hq
      rw [h, unquotedBy_eq_some.mpr hinner] at hnone
      cases hnone
    | some inner =>
      -- without its quotes the value would be shorter
      obtain ⟨q, -, hinner⟩ := List.exists_of_findSome?_eq_some hquoted
      have hlength := congrArg List.length (unquotedBy_eq_some.mp hinner)
      have hle := length_trim value
      rw [hquoted, Option.getD_some] at h
      rw [List.length_cons, List.length_append, h, List.length_singleton] at hlength
      omega
  · intro h
    have hnone : (QUOTES.findSome? fun q => unquotedBy q value) = none := by
      apply List.findSome?_eq_none_iff.mpr
      intro q hq
      cases hinner : unquotedBy q value with
      | none => rfl
      | some inner => exact absurd (unquotedBy_eq_some.mp hinner) (h.bare q hq inner)
    have htrim : trim value = value := List.strip_of_clean h.clean
    rw [htrim, unquoted, hnone, Option.getD_none]

/-! ## What was written is read -/

theorem isKey_pairs (f : Fields) : ∀ field ∈ f.pairs, IsKey field.1 := by
  have hkey : ∀ key ∈ ["SNAP_NAME".toList, "SNAP_INSTANCE_NAME".toList, "UNIX_SOCKET".toList],
      IsKey key := by
    intro key hmem
    have hkeys : ∀ key ∈ ["SNAP_NAME".toList, "SNAP_INSTANCE_NAME".toList, "UNIX_SOCKET".toList],
        key ≠ [] ∧ key.Clean Desktop.isWhitespace ∧ '=' ∉ key ∧ key.head? ≠ some '#' ∧
          '\n' ∉ key := by
      decide
    obtain ⟨hne, hclean, hbare, hcomment, hline⟩ := hkeys key hmem
    exact ⟨hne, hclean, hbare, hcomment, hline⟩
  intro field hfield
  exact hkey field.1 (List.mem_map_of_mem (f := Prod.fst) hfield)

/-- Each line is one field again. -/
theorem lines_render {f : Fields} {text : List Char} (h : render f = some text) :
    Lines.lines text = f.pairs.map fun field => field.1 ++ '=' :: field.2 := by
  unfold render at h
  split_ifs at h with hbreak
  cases h
  have hmap : (f.pairs.flatMap fun field => field.1 ++ '=' :: field.2 ++ ['\n']) =
      (f.pairs.map fun field => field.1 ++ '=' :: field.2).flatMap (· ++ ['\n']) := by
    rw [List.flatMap_map]
  rw [hmap]
  apply Lines.lines_flatMap
  intro line hline
  obtain ⟨field, hfield, rfl⟩ := List.mem_map.mp hline
  obtain ⟨hfeed, hreturn⟩ : '\n' ∉ field.2 ∧ '\r' ∉ field.2 := by
    have hnot := List.any_eq_false.mp (Bool.eq_false_of_not_eq_true hbreak) field hfield
    simpa using hnot
  constructor
  · intro hmem
    cases List.mem_append.mp hmem with
    | inl hkey => exact (isKey_pairs f field hfield).oneLine hkey
    | inr hvalue =>
      cases List.mem_cons.mp hvalue with
      | inl heq => cases heq
      | inr hvalue => exact hfeed hvalue
  · rw [List.getLast?_append, List.getLast?_cons]
    intro hlast
    cases hend : field.2.getLast? with
    | none =>
      rw [hend] at hlast
      cases hlast
    | some c =>
      rw [hend] at hlast
      cases hlast
      exact hreturn (List.mem_of_getLast? hend)

theorem parseEnv_render {f : Fields} {text : List Char} (h : render f = some text) :
    parseEnv text = some (f.pairs.map fun field => (field.1, unquoted (trim field.2))) := by
  have hline : ∀ env, ∀ field ∈ f.pairs, parseLine env (trim (field.1 ++ '=' :: field.2)) =
      some (env.set field.1 (unquoted (trim field.2))) := fun env field hfield =>
    parseLine_assignment env (isKey_pairs f field hfield) field.2
  unfold parseEnv
  rw [lines_render h]
  unfold Fields.pairs at hline ⊢
  simp only [List.map_cons, List.map_nil, List.foldlM_cons, List.foldlM_nil]
  rw [hline _ _ (.head _), Option.bind_eq_bind, Option.bind_some, hline _ _ (.tail _ (.head _)),
    Option.bind_some, hline _ _ (.tail _ (.tail _ (.head _))), Option.bind_some]
  rfl

/-- The client reads the three fields as the server had them exactly when no reader changes any. -/
theorem provider_env_agrees_iff (f : Fields) (text : List Char) (h : render f = some text) :
    parseEnv text = some f.pairs ↔ ∀ field ∈ f.pairs, Plain field.2 := by
  have hsame : f.pairs.map (fun field => (field.1, unquoted (trim field.2))) = f.pairs ↔
      ∀ field ∈ f.pairs, (field.1, unquoted (trim field.2)) = field := by
    have hmap := List.map_inj_left (l := f.pairs) (g := id)
      (f := fun field => (field.1, unquoted (trim field.2)))
    rwa [List.map_id] at hmap
  rw [parseEnv_render h, Option.some_inj, hsame]
  constructor
  · intro hread field hfield
    exact unquoted_trim_iff.mp (congrArg Prod.snd (hread field hfield))
  · intro hplain field hfield
    exact Prod.ext rfl (unquoted_trim_iff.mpr (hplain field hfield))

/-- What a snap shares. -/
def parakeet : Fields :=
  ⟨"myna-parakeet".toList, "myna-parakeet_dev".toList, "myna.sock".toList⟩

theorem parakeet_agrees : ∃ text, render parakeet = some text ∧
    (parseEnv text = some parakeet.pairs ↔ ∀ field ∈ parakeet.pairs, Plain field.2) := by
  obtain ⟨text, htext⟩ := Option.isSome_iff_exists.mp
    (show (render parakeet).isSome = true by decide +kernel)
  exact ⟨text, htext, provider_env_agrees_iff parakeet text htext⟩

/-- A socket whose name ends with a space is read without it, one in quotes without them. -/
theorem socket_trimmed :
    (render ⟨"a".toList, "a".toList, "my.sock ".toList⟩).bind parseEnv =
        some (Fields.pairs ⟨"a".toList, "a".toList, "my.sock".toList⟩) ∧
      (render ⟨"a".toList, "a".toList, "\"my.sock\"".toList⟩).bind parseEnv =
        some (Fields.pairs ⟨"a".toList, "a".toList, "my.sock".toList⟩) := by
  decide +kernel

end ProviderEnv

end Orchestrator

end Myna
