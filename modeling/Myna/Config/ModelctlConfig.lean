import Mathlib.Data.Int.Log
import Myna.Config.BackendApply
import Myna.Lib.Lines
import Myna.Lib.Rounding

/-!
# Myna — a backend's configuration, as it is read (`myna_config::domain::parse_modelctl_config`)

`modelctl get` prints one line for each setting, its key and its value with a colon between them.
The value has lost its type: a text is printed without quotes, and what a value is has to be told
from how it looks.

* **`parseModelctlConfig`** — the settings of such a text;
* **`parseI64_toString`** — an integer is read as itself;
* **`parse_entries`** — the lines of well formed entries are read entry by entry;
* **`BackendConfiguration.isKey`** — what the keys that are read have in common.
-/

namespace Myna

namespace Config

def trim (text : List Char) : List Char := text.strip Desktop.isWhitespace

/-! ## Numbers -/

/-- The magnitude of a number without its sign, and whether it is negative. -/
def unsign : List Char → Bool × List Char
  | '-' :: rest => (true, rest)
  | '+' :: rest => (false, rest)
  | text => (false, text)

def decimal (digits : List Char) : ℕ := Nat.ofDigitChars 10 digits 0

def IsI64 (n : ℤ) : Prop := -2 ^ 63 ≤ n ∧ n < 2 ^ 63

instance (n : ℤ) : Decidable (IsI64 n) := inferInstanceAs (Decidable (_ ∧ _))

/-- `i64::from_str`. -/
def parseI64 (text : List Char) : Option ℤ :=
  let (negative, digits) := unsign text
  let value : ℤ := if negative then -decimal digits else decimal digits
  if digits ≠ [] ∧ digits.all isAsciiDigit ∧ IsI64 value then some value else none

/-- The nearest `f64`, ties to even. -/
def F64.nearest (x : ℚ) : F64 :=
  if x = 0 then .finite 0
  else
    let place : ℚ := 2 ^ max (Int.log 2 |x| - 52) (-1074)
    let rounded := roundHalfEven (x / place) * place
    if 2 ^ 1024 ≤ |rounded| then .infinite (x < 0) else .finite rounded

/-- The exponent that ends a number, if there is one. -/
def parseExponent : List Char → Option ℤ
  | [] => some 0
  | c :: rest =>
    let (negative, digits) := unsign rest
    if (c = 'e' ∨ c = 'E') ∧ digits ≠ [] ∧ digits.all isAsciiDigit then
      some (if negative then -decimal digits else decimal digits)
    else none

/-- Digits with a point before, between or after them, and an exponent. -/
def parseDecimal (text : List Char) : Option ℚ :=
  let (whole, rest) := text.span isAsciiDigit
  let (fraction, rest) := match rest with
    | '.' :: rest => rest.span isAsciiDigit
    | rest => ([], rest)
  if whole = [] ∧ fraction = [] then none
  else (parseExponent rest).map fun exponent : ℤ =>
    decimal (whole ++ fraction) * (10 : ℚ) ^ (exponent - fraction.length)

/-- `f64::from_str`. -/
def parseF64 (text : List Char) : Option F64 :=
  let (negative, magnitude) := unsign text
  let word := magnitude.map Char.toLower
  if word = "nan".toList then some .nan
  else if word = "inf".toList ∨ word = "infinity".toList then some (.infinite negative)
  else (parseDecimal magnitude).map fun x => .nearest (if negative then -x else x)

/-! ## The configuration -/

/-- `parse_scalar`. -/
def parseScalar (raw : List Char) : ConfigValue :=
  if raw = "true".toList then .boolean true
  else if raw = "false".toList then .boolean false
  else
    match parseI64 raw with
    | some n => .integer n
    | none =>
      match parseF64 raw with
      | some x => .number x
      | none => .text (String.ofList raw)

structure ParseError where
  source : String
  message : String
deriving DecidableEq

/-- `BTreeMap::insert`, of a map that is listed in the order of its keys. -/
def insertValue (values : Dict String ConfigValue) (key : String) (value : ConfigValue) :
    Dict String ConfigValue :=
  Dict.insertSorted (values.remove key) key value

/-- What a line of the text adds to the settings; `number` counts from one. -/
def parseLine (number : ℕ) (line : List Char) (values : Dict String ConfigValue) :
    Except ParseError (Dict String ConfigValue) :=
  if trim line = [] ∨ line.head? = some '#' then .ok values
  else if line.head?.any Desktop.isWhitespace then
    .error ⟨"modelctl get", "nested content on line " ++ toString number⟩
  else
    match List.splitOnce [':'] line with
    | none => .error ⟨"modelctl get", "missing ':' on line " ++ toString number⟩
    | some (key, raw) =>
      if trim key = [] then .error ⟨"modelctl get", "empty key on line " ++ toString number⟩
      else .ok (insertValue values (String.ofList (trim key)) (parseScalar (trim raw)))

def parseLines : ℕ → List (List Char) → Dict String ConfigValue →
    Except ParseError (Dict String ConfigValue)
  | _, [], values => .ok values
  | number, line :: lines, values =>
    match parseLine number line values with
    | .ok values => parseLines (number + 1) lines values
    | .error error => .error error

def parseValues (input : String) : Except ParseError (Dict String ConfigValue) :=
  parseLines 1 (Lines.lines input.toList) []

/-- The user layer of a backend's configuration: the settings of a text that was read. -/
structure BackendConfiguration where
  values : Dict String ConfigValue
  read : ∃ input, parseValues input = .ok values

namespace BackendConfiguration

/-- `BackendConfiguration::default`. -/
def empty : BackendConfiguration := ⟨[], "", rfl⟩

def get (configuration : BackendConfiguration) (key : String) : Option ConfigValue :=
  configuration.values.get? key

end BackendConfiguration

/-- The settings of the text that `modelctl get` printed. -/
def parseModelctlConfig (input : String) : Except ParseError BackendConfiguration :=
  match h : parseValues input with
  | .ok values => .ok ⟨values, input, h⟩
  | .error error => .error error

theorem parseModelctlConfig_of_values {input : String} {values : Dict String ConfigValue}
    (h : parseValues input = .ok values) :
    parseModelctlConfig input = .ok ⟨values, input, h⟩ := by
  unfold parseModelctlConfig
  split
  · rename_i other hother
    obtain rfl := Except.ok.inj (hother.symm.trans h)
    rfl
  · rename_i error herror
    cases herror.symm.trans h

/-! ## The numbers that are read -/

theorem digitsOnly_toDigits (n : ℕ) : (Nat.toDigits 10 n).all isAsciiDigit = true := by
  rw [List.all_eq_true]
  intro c hc
  have hdigit := Nat.isDigit_of_mem_toDigits (by decide) (by decide) hc
  simpa [isAsciiDigit, Char.isDigit, Char.le_def] using hdigit

theorem unsign_digits {digits : List Char} (hdigits : digits.all isAsciiDigit = true) :
    unsign digits = (false, digits) := by
  cases digits with
  | nil => rfl
  | cons c digits =>
    have hc : isAsciiDigit c = true := List.all_eq_true.mp hdigits c List.mem_cons_self
    unfold unsign
    split
    · rename_i heq
      rw [(List.cons.inj heq).1] at hc
      exact absurd hc (by decide)
    · rename_i heq
      rw [(List.cons.inj heq).1] at hc
      exact absurd hc (by decide)
    · rfl

/-- An integer is read as itself. -/
theorem parseI64_toString {n : ℤ} (h : IsI64 n) : parseI64 (toString n).toList = some n := by
  have hne : ∀ m, Nat.toDigits 10 m ≠ [] := fun m => Nat.toDigits_ne_nil
  rw [Int.toString_eq_repr]
  cases n with
  | ofNat n =>
    have hrepr : (Int.repr (.ofNat n)).toList = Nat.toDigits 10 n := Nat.toList_repr
    rw [hrepr, parseI64, unsign_digits (digitsOnly_toDigits n)]
    show (if _ ∧ _ ∧ IsI64 (decimal _ : ℤ) then some (decimal _ : ℤ) else none) = _
    rw [decimal, Nat.ofDigitChars_ten_toDigits]
    exact if_pos ⟨hne n, digitsOnly_toDigits n, h⟩
  | negSucc n =>
    have hrepr : (Int.repr (.negSucc n)).toList = '-' :: Nat.toDigits 10 (n + 1) := by
      show ("-" ++ Nat.repr (n + 1)).toList = _
      rw [String.toList_append, Nat.toList_repr]
      rfl
    have hunsign : unsign ('-' :: Nat.toDigits 10 (n + 1)) = (true, Nat.toDigits 10 (n + 1)) := rfl
    rw [hrepr, parseI64, hunsign]
    show (if _ ∧ _ ∧ IsI64 (-decimal _ : ℤ) then some (-decimal _ : ℤ) else none) = _
    rw [decimal, Nat.ofDigitChars_ten_toDigits]
    exact if_pos ⟨hne _, digitsOnly_toDigits _, h⟩

/-! ## The lines of entries -/

/-- A key that a line can have. -/
structure IsKey (key : List Char) : Prop where
  ne : key ≠ []
  clean : key.Clean Desktop.isWhitespace
  colon : ':' ∉ key
  feed : '\n' ∉ key
  comment : key.head? ≠ some '#'

/-- A text that stands on one line. -/
def OneLine (text : List Char) : Prop := '\n' ∉ text ∧ text.getLast? ≠ some '\r'

instance (text : List Char) : Decidable (OneLine text) := inferInstanceAs (Decidable (_ ∧ _))

def entryLine (key : String) (shown : List Char) : List Char := key.toList ++ ':' :: ' ' :: shown

section

variable {key : String} (shown : List Char)

theorem trim_space : trim (' ' :: shown) = trim shown := by
  unfold trim List.strip
  rw [List.dropWhile_cons_of_pos (by decide)]

theorem head?_entryLine (h : IsKey key.toList) :
    (entryLine key shown).head? = key.toList.head? := by
  cases hkey : key.toList with
  | nil => exact absurd hkey h.ne
  | cons c rest => rw [entryLine, hkey, List.cons_append, List.head?_cons, List.head?_cons]

theorem trim_entryLine_ne (h : IsKey key.toList) : trim (entryLine key shown) ≠ [] := by
  intro hnil
  cases hkey : key.toList with
  | nil => exact h.ne hkey
  | cons c rest =>
    -- the first character of the key stays
    have hc : Desktop.isWhitespace c = false := h.clean.1 c (by rw [hkey]; rfl)
    have hdrop : (entryLine key shown).dropWhile Desktop.isWhitespace = entryLine key shown := by
      rw [entryLine, hkey, List.cons_append, List.dropWhile_cons_of_neg (by simp [hc])]
    have hall : ∀ d ∈ entryLine key shown, Desktop.isWhitespace d = true := by
      rw [← List.rdropWhile_eq_nil_iff, ← hdrop]
      exact hnil
    have := hall c (by rw [entryLine, hkey]; exact List.mem_append_left _ List.mem_cons_self)
    rw [hc] at this
    cases this

theorem parseLine_entry (number : ℕ) (h : IsKey key.toList) (values : Dict String ConfigValue) :
    parseLine number (entryLine key shown) values =
      .ok (insertValue values key (parseScalar (trim shown))) := by
  have hcomment : (entryLine key shown).head? ≠ some '#' := by
    rw [head?_entryLine shown h]
    exact h.comment
  have hnested : ¬ (entryLine key shown).head?.any Desktop.isWhitespace = true := by
    rw [head?_entryLine shown h]
    cases hhead : key.toList.head? with
    | none => simp
    | some c => simp [h.clean.1 c hhead]
  have hsplit : List.splitOnce [':'] (entryLine key shown) = some (key.toList, ' ' :: shown) :=
    List.splitOnce_singleton.mpr ⟨rfl, h.colon⟩
  have htrim : trim key.toList = key.toList := List.strip_of_clean h.clean
  unfold parseLine
  rw [if_neg (not_or.mpr ⟨trim_entryLine_ne shown h, hcomment⟩), if_neg hnested, hsplit]
  dsimp only
  rw [htrim, if_neg h.ne, String.ofList_toList, trim_space]

theorem get?_insertValue (values : Dict String ConfigValue) (key other : String)
    (value : ConfigValue) :
    (insertValue values key value).get? other =
      if key = other then some value else values.get? other := by
  have hnone : (values.remove key).get? key = none := by rw [Dict.get?_remove, if_pos rfl]
  unfold insertValue
  rw [Dict.get?_insertSorted hnone, Dict.get?_remove]
  split <;> simp_all

end

/-- Of keys that differ, each one gets the value of its entry. -/
theorem get?_foldl_insertValue {entries : Dict String ConfigValue} (hentries : entries.keys.Nodup)
    (values : Dict String ConfigValue) (key : String) :
    Dict.get? (entries.foldl (fun values entry => insertValue values entry.1 entry.2) values) key =
      (entries.get? key).or (values.get? key) := by
  induction entries generalizing values with
  | nil => rfl
  | cons entry entries ih =>
    obtain ⟨k, v⟩ := entry
    obtain ⟨hk, hentries⟩ := List.nodup_cons.mp hentries
    rw [List.foldl_cons, ih hentries, get?_insertValue, Dict.get?]
    by_cases heq : k = key
    · subst heq
      have hnone : Dict.get? entries k = none := by
        cases hget : Dict.get? entries k with
        | none => rfl
        | some value => exact absurd (Dict.mem_keys.mpr ⟨value, hget⟩) hk
      rw [if_pos rfl, if_pos rfl, hnone]
      rfl
    · rw [if_neg heq, if_neg heq]

theorem parseLines_entries {entries : Dict String (List Char)}
    (h : ∀ entry ∈ entries, IsKey entry.1.toList) (number : ℕ)
    (values : Dict String ConfigValue) :
    parseLines number (entries.map fun entry => entryLine entry.1 entry.2) values =
      .ok ((entries.mapVals fun _ shown => parseScalar (trim shown)).foldl
        (fun values entry => insertValue values entry.1 entry.2) values) := by
  induction entries generalizing number values with
  | nil => rfl
  | cons entry entries ih =>
    rw [List.map_cons, parseLines, parseLine_entry entry.2 number (h entry List.mem_cons_self)]
    exact ih (fun other hmem => h other (List.mem_cons_of_mem _ hmem)) _ _

/-- **Entries are read as they are written**, each value as what it looks like. -/
theorem parse_entries {entries : Dict String (List Char)} (hnodup : entries.keys.Nodup)
    (hkeys : ∀ entry ∈ entries, IsKey entry.1.toList)
    (hlines : ∀ entry ∈ entries, OneLine entry.2) :
    ∃ configuration,
      parseModelctlConfig (String.ofList
        (entries.flatMap fun entry => entryLine entry.1 entry.2 ++ ['\n'])) =
          .ok configuration ∧
      ∀ key, configuration.get key =
        (entries.get? key).map fun shown => parseScalar (trim shown) := by
  have hwritten : Lines.lines (entries.flatMap fun entry => entryLine entry.1 entry.2 ++ ['\n']) =
      entries.map fun entry => entryLine entry.1 entry.2 := by
    rw [← @Lines.lines_flatMap (entries.map fun entry => entryLine entry.1 entry.2),
      List.flatMap_map]
    intro line hmem
    obtain ⟨entry, hentry, rfl⟩ := List.mem_map.mp hmem
    obtain ⟨hfeed, hlast⟩ := hlines entry hentry
    constructor
    · have hkey := (hkeys entry hentry).feed
      simp [entryLine, hkey, hfeed]
    · cases hshown : entry.2 with
      | nil => simp [entryLine, List.getLast?_append]
      | cons c shown =>
        rw [hshown] at hlast
        simpa [entryLine, List.getLast?_append, List.getLast?_cons_cons] using hlast
  have hvalues : parseValues (String.ofList
      (entries.flatMap fun entry => entryLine entry.1 entry.2 ++ ['\n'])) =
        .ok ((entries.mapVals fun _ shown => parseScalar (trim shown)).foldl
          (fun values entry => insertValue values entry.1 entry.2) []) := by
    unfold parseValues
    rw [String.toList_ofList, hwritten, parseLines_entries hkeys]
  refine ⟨_, parseModelctlConfig_of_values hvalues, fun key => ?_⟩
  show Dict.get? (List.foldl _ _ _) key = _
  rw [get?_foldl_insertValue, Dict.get?_mapVals]
  · cases entries.get? key <;> rfl
  · rw [Dict.keys_mapVals]
    exact hnodup

/-! ## The keys that are read -/

theorem isKey_of_line {line before raw : List Char} (hfeed : '\n' ∉ line)
    (hcomment : line.head? ≠ some '#') (hnested : ¬ line.head?.any Desktop.isWhitespace = true)
    (hsplit : List.splitOnce [':'] line = some (before, raw)) (hne : trim before ≠ []) :
    IsKey (trim before) := by
  obtain ⟨rfl, hcolon⟩ := List.splitOnce_singleton.mp hsplit
  have hsub : ∀ {c}, c ∈ trim before → c ∈ before := fun hmem =>
    (List.dropWhile_suffix _).subset ((List.rdropWhile_prefix _ _).subset hmem)
  refine ⟨hne, List.clean_strip _ _, fun h => hcolon (hsub h),
    fun h => hfeed (List.mem_append_left _ (hsub h)), ?_⟩
  cases before with
  | nil => exact absurd rfl hne
  | cons c rest =>
    -- the line starts with the first character of the key
    have hc : ¬ Desktop.isWhitespace c = true := by simpa using hnested
    have hhash : c ≠ '#' := by simpa using hcomment
    intro hhead
    obtain ⟨tail, htail⟩ : trim (c :: rest) <+: c :: rest := by
      unfold trim List.strip
      rw [List.dropWhile_cons_of_neg hc]
      exact List.rdropWhile_prefix _ _
    have hfirst : (c :: rest).head? = some '#' := by
      rw [← htail, List.head?_append, hhead]
      rfl
    exact hhash (Option.some.inj hfirst)

theorem mem_keys_parseLine {number : ℕ} {line : List Char}
    {values values' : Dict String ConfigValue} (h : parseLine number line values = .ok values')
    (hfeed : '\n' ∉ line) (hvalues : ∀ key ∈ values.keys, IsKey key.toList) :
    ∀ key ∈ values'.keys, IsKey key.toList := by
  unfold parseLine at h
  split at h
  · rw [← Except.ok.inj h]
    exact hvalues
  · rename_i hskip
    split at h
    · cases h
    · rename_i hnested
      split at h
      · cases h
      · rename_i before raw hsplit
        split at h
        · cases h
        · rename_i hne
          intro key hmem
          rw [← Except.ok.inj h] at hmem
          obtain ⟨value, hvalue⟩ := Dict.mem_keys.mp hmem
          rw [get?_insertValue] at hvalue
          split at hvalue
          · rename_i heq
            rw [← heq, String.toList_ofList]
            exact isKey_of_line hfeed (not_or.mp hskip).2 hnested hsplit hne
          · exact hvalues key (Dict.mem_keys.mpr ⟨value, hvalue⟩)

theorem mem_keys_parseLines {lines : List (List Char)} {number : ℕ}
    {values values' : Dict String ConfigValue} (h : parseLines number lines values = .ok values')
    (hfeed : ∀ line ∈ lines, '\n' ∉ line) (hvalues : ∀ key ∈ values.keys, IsKey key.toList) :
    ∀ key ∈ values'.keys, IsKey key.toList := by
  induction lines generalizing number values with
  | nil =>
    rw [parseLines] at h
    rw [← Except.ok.inj h]
    exact hvalues
  | cons line lines ih =>
    rw [parseLines] at h
    split at h
    · rename_i next hline
      exact ih h (fun other hmem => hfeed other (List.mem_cons_of_mem _ hmem))
        (mem_keys_parseLine hline (hfeed line List.mem_cons_self) hvalues)
    · cases h

/-- A key that was read is one that a line can have. -/
theorem BackendConfiguration.isKey {configuration : BackendConfiguration} {key : String}
    {value : ConfigValue} (h : configuration.get key = some value) : IsKey key.toList := by
  obtain ⟨input, hread⟩ := configuration.read
  exact mem_keys_parseLines hread (fun line hmem => Lines.notMem_of_mem_lines hmem)
    (fun key hmem => by cases hmem) key (Dict.mem_keys.mpr ⟨value, h⟩)

end Config

end Myna
