import Myna.Config.BackendReadBack

/-!
# Myna — a setting that the backend kept

`modelctl set` is given a value as JSON, and `modelctl get` prints it with a text's quotes gone.
What was kept of a change is then told from how it looks. A text that looks like a number, a boolean
or nothing at all is out of this; so is a whole number that was asked for as a float, which is
printed as an integer.

* **`Modelctl.print`** — what `modelctl get` prints of a store;
* **`parse_print`** — a printed store is read value by value;
* **`kept_is_confirmed`** — a change is confirmed exactly when the store has what was asked for.
-/

namespace Myna

namespace Config

/-! ## Stores -/

/-- A JSON value that `modelctl` prints on one line. -/
inductive JsonScalar
  | null
  | boolean (b : Bool)
  | number (x : ℚ)
  | text (s : String)
deriving DecidableEq

/-- The JSON value of `serialize_value`. -/
def ConfigValue.json : ConfigValue → Option JsonScalar
  | .null => some .null
  | .boolean b => some (.boolean b)
  | .integer n => some (.number n)
  | .number (.finite x) => some (.number x)
  | .number _ => none
  | .text s => some (.text s)

/-- How `modelctl` prints a number. -/
structure Modelctl where
  number : ℚ → String

namespace Modelctl

variable (m : Modelctl)

def shown : JsonScalar → String
  | .null => "null"
  | .boolean b => if b then "true" else "false"
  | .number x => m.number x
  | .text s => s

/-- `modelctl get`. -/
def print (store : Dict String JsonScalar) : String :=
  String.ofList ((store.mapVals fun _ scalar => (m.shown scalar).toList).flatMap fun entry =>
    entryLine entry.1 entry.2 ++ ['\n'])

/-- A number is printed in the shortest form that is read as itself. -/
structure Shows (x : ℚ) : Prop where
  whole : x.den = 1 → IsI64 x.num → m.number x = toString x.num
  other : ¬ (x.den = 1 ∧ IsI64 x.num) → OneLine (m.number x).toList ∧
    (m.number x).toList.Clean Desktop.isWhitespace ∧ parseI64 (m.number x).toList = none ∧
      parseF64 (m.number x).toList = some (.finite x)

/-- What is printed of a value tells what it is. -/
def Tells : JsonScalar → Prop
  | .null => False
  | .boolean _ => True
  | .number x => m.Shows x
  | .text s => OneLine s.toList ∧ s.toList.Clean Desktop.isWhitespace ∧
    parseScalar s.toList = .text s

end Modelctl

/-- The value that a number looks like. -/
def numberAsRead (x : ℚ) : ConfigValue :=
  if x.den = 1 ∧ IsI64 x.num then .integer x.num else .number (.finite x)

/-- The value that a scalar looks like. -/
def JsonScalar.asRead : JsonScalar → ConfigValue
  | .null => .text "null"
  | .boolean b => .boolean b
  | .number x => numberAsRead x
  | .text s => .text s

theorem JsonScalar.json_asRead {scalar : JsonScalar} (h : scalar ≠ .null) :
    scalar.asRead.json = some scalar := by
  cases scalar with
  | null => exact absurd rfl h
  | boolean b => rfl
  | number x =>
    show (numberAsRead x).json = _
    unfold numberAsRead
    split
    · rename_i hwhole
      show some (JsonScalar.number x.num) = _
      rw [Rat.coe_int_num_of_den_eq_one hwhole.1]
    · rfl
  | text s => rfl

/-- Scalars that look alike are one. -/
theorem JsonScalar.asRead_injective {v w : JsonScalar} (hv : v ≠ .null) (hw : w ≠ .null)
    (h : v.asRead = w.asRead) : v = w := by
  have hjson := json_asRead hv
  rw [h, json_asRead hw] at hjson
  exact (Option.some.inj hjson).symm

/-! ## Reading what was printed -/

section

variable {m : Modelctl}

theorem not_isWhitespace_of_digit {c : Char} (h : isAsciiDigit c = true) :
    Desktop.isWhitespace c = false := by
  have hbounds : 48 ≤ c.toNat ∧ c.toNat ≤ 57 := by
    obtain ⟨hlow, hhigh⟩ := (Bool.and_eq_true _ _).mp h
    exact ⟨of_decide_eq_true hlow, of_decide_eq_true hhigh⟩
  simp only [Desktop.isWhitespace, Bool.or_eq_false_iff, Bool.and_eq_false_iff,
    decide_eq_false_iff_not, beq_eq_false_iff_ne]
  omega

theorem mem_toString {n : ℤ} {c : Char} (h : c ∈ (toString n).toList) :
    c = '-' ∨ isAsciiDigit c = true := by
  rw [Int.toString_eq_repr] at h
  cases n with
  | ofNat n =>
    have hrepr : (Int.repr (.ofNat n)).toList = Nat.toDigits 10 n := Nat.toList_repr
    rw [hrepr] at h
    exact .inr (List.all_eq_true.mp (digitsOnly_toDigits n) c h)
  | negSucc n =>
    have hrepr : (Int.repr (.negSucc n)).toList = '-' :: Nat.toDigits 10 (n + 1) := by
      show ("-" ++ Nat.repr (n + 1)).toList = _
      rw [String.toList_append, Nat.toList_repr]
      rfl
    rw [hrepr] at h
    rcases List.mem_cons.mp h with rfl | hdigit
    · exact .inl rfl
    · exact .inr (List.all_eq_true.mp (digitsOnly_toDigits _) c hdigit)

theorem not_isWhitespace_of_mem_toString {n : ℤ} {c : Char} (h : c ∈ (toString n).toList) :
    Desktop.isWhitespace c = false := by
  rcases mem_toString h with rfl | hdigit
  · decide
  · exact not_isWhitespace_of_digit hdigit

theorem clean_toString (n : ℤ) : (toString n).toList.Clean Desktop.isWhitespace :=
  ⟨fun _ hc => not_isWhitespace_of_mem_toString (List.mem_of_mem_head? hc),
    fun _ hc => not_isWhitespace_of_mem_toString (List.mem_of_mem_getLast? hc)⟩

theorem oneLine_toString (n : ℤ) : OneLine (toString n).toList := by
  constructor
  · intro hmem
    exact absurd (not_isWhitespace_of_mem_toString hmem) (by decide)
  · intro hlast
    exact absurd (not_isWhitespace_of_mem_toString (List.mem_of_mem_getLast? hlast)) (by decide)

theorem parseScalar_toString {n : ℤ} (h : IsI64 n) :
    parseScalar (toString n).toList = .integer n := by
  have hparse := parseI64_toString h
  unfold parseScalar
  rw [if_neg, if_neg, hparse]
  · intro heq
    rw [heq] at hparse
    cases hparse
  · intro heq
    rw [heq] at hparse
    cases hparse

theorem Modelctl.Tells.oneLine {scalar : JsonScalar} (h : m.Tells scalar) :
    OneLine (m.shown scalar).toList := by
  cases scalar with
  | null => exact absurd h id
  | boolean b =>
    show OneLine (if b then "true" else "false").toList
    cases b <;> decide
  | number x =>
    by_cases hwhole : x.den = 1 ∧ IsI64 x.num
    · show OneLine (m.number x).toList
      rw [h.whole hwhole.1 hwhole.2]
      exact oneLine_toString _
    · exact (h.other hwhole).1
  | text s => exact h.1

/-- **A value that tells what it is is read as that.** -/
theorem Modelctl.Tells.read {scalar : JsonScalar} (h : m.Tells scalar) :
    parseScalar (trim (m.shown scalar).toList) = scalar.asRead := by
  cases scalar with
  | null => exact absurd h id
  | boolean b =>
    show parseScalar (trim (if b then "true" else "false").toList) = .boolean b
    cases b <;> decide
  | number x =>
    show parseScalar (trim (m.number x).toList) = numberAsRead x
    unfold numberAsRead
    by_cases hwhole : x.den = 1 ∧ IsI64 x.num
    · rw [if_pos hwhole, h.whole hwhole.1 hwhole.2, trim, List.strip_of_clean (clean_toString _),
        parseScalar_toString hwhole.2]
    · obtain ⟨-, hclean, hnone, hsome⟩ := h.other hwhole
      rw [if_neg hwhole, trim, List.strip_of_clean hclean]
      -- the words of the booleans are no numbers
      have htrue : parseF64 "true".toList = none := by decide +kernel
      have hfalse : parseF64 "false".toList = none := by decide +kernel
      unfold parseScalar
      rw [if_neg, if_neg, hnone, hsome]
      · intro heq
        rw [heq, hfalse] at hsome
        cases hsome
      · intro heq
        rw [heq, htrue] at hsome
        cases hsome
  | text s =>
    obtain ⟨-, hclean, hparse⟩ := h
    show parseScalar (trim s.toList) = _
    rw [trim, List.strip_of_clean hclean, hparse]
    rfl

/-! ## What was kept -/

/-- What the reads rely on of the rest of a store: every other setting has a key that a line can
have, and is printed on one line. -/
def Modelctl.Prints (m : Modelctl) (store : Dict String JsonScalar) (key : String) : Prop :=
  store.keys.Nodup ∧ ∀ entry ∈ store, entry.1 ≠ key →
    IsKey entry.1.toList ∧ OneLine (m.shown entry.2).toList

/-- A store is read, and a setting that tells what it is is read as that. -/
theorem parse_print {store : Dict String JsonScalar} {key : String} (hkey : IsKey key.toList)
    (hstore : m.Prints store key)
    (hkept : ∀ scalar, store.get? key = some scalar → m.Tells scalar) :
    ∃ configuration, parseModelctlConfig (m.print store) = .ok configuration ∧
      configuration.get key = (store.get? key).map JsonScalar.asRead := by
  obtain ⟨hnodup, hothers⟩ := hstore
  have hentries : ∀ entry ∈ store, IsKey entry.1.toList ∧ OneLine (m.shown entry.2).toList := by
    intro entry hmem
    by_cases heq : entry.1 = key
    · have hget : store.get? key = some entry.2 := Dict.get?_of_mem hnodup (heq ▸ hmem)
      exact ⟨heq ▸ hkey, (hkept _ hget).oneLine⟩
    · exact hothers entry hmem heq
  have hshown : ∀ entry ∈ store.mapVals fun _ scalar => (m.shown scalar).toList,
      IsKey entry.1.toList ∧ OneLine entry.2 := by
    intro entry hmem
    obtain ⟨stored, hstored, rfl⟩ := List.mem_map.mp hmem
    exact hentries stored hstored
  obtain ⟨configuration, hparse, hget⟩ := @parse_entries
    (store.mapVals fun _ scalar => (m.shown scalar).toList)
    (by rw [Dict.keys_mapVals]; exact hnodup) (fun entry hmem => (hshown entry hmem).1)
    (fun entry hmem => (hshown entry hmem).2)
  refine ⟨configuration, hparse, ?_⟩
  rw [hget, Dict.get?_mapVals]
  cases hscalar : store.get? key with
  | none => rfl
  | some scalar => exact congrArg some (hkept scalar hscalar).read

end

section

variable {json : JsonText} {tr : String → String} {ptr : String → String → String} {m : Modelctl}
  {σ : Type} {ports : ApplyPorts σ}

end

/-! ## A beam of 5 -/

theorem beamSize_keyed : isBlank "beam-size" = false := by
  decide +kernel

theorem values_four : parseValues "beam-size: 4\n" = .ok [("beam-size", .integer 4)] := by
  decide +kernel

theorem values_five : parseValues "beam-size: 5\n" = .ok [("beam-size", .integer 5)] := by
  decide +kernel

/-- A running backend that was read with `configuration`. -/
def runningBackend (configuration : BackendConfiguration) : BackendSnapshot :=
  { identity := parakeetBackend
    configuration := configuration
    status := some ⟨[⟨"server", .active⟩]⟩ }

def beforeChange : BackendSnapshot := runningBackend ⟨_, _, values_four⟩

def afterChange : BackendSnapshot := runningBackend ⟨_, _, values_five⟩

/-- Every command runs, and the backend has the change at once. -/
def promptPorts : ApplyPorts Unit where
  applyBackendConfig preview w :=
    (.ok (preview.operations.map fun operation =>
      ⟨operation.executable, operation.arguments, some 0, "", ""⟩), w)
  readSnapshot _ w := (afterChange, w)
  pause := id
  isCancelled _ := false
  verificationCancelled _ := false

def wholeNumbers : Modelctl := ⟨fun x => toString x.num⟩

theorem shows_five : wholeNumbers.Shows 5 :=
  ⟨fun _ _ => rfl, fun hnot => absurd ⟨rfl, by decide⟩ hnot⟩

theorem beamSize_planned : prepareChange id plainJson ⟨parakeetBackend, some beforeChange⟩
    "beam-size" (.integer 5) = .ok (keyPreview "beam-size" beamSize_keyed) := rfl

theorem beamSize_printed : parseModelctlConfig (wholeNumbers.print [("beam-size", .number 5)]) =
    .ok afterChange.configuration :=
  parseModelctlConfig_of_values values_five

theorem beamSize_settles : SettlesAt id (fun _ text => text) promptPorts
    (keyPreview "beam-size" beamSize_keyed) () 0 afterChange where
  pending m hm := absurd hm (Nat.not_lt_zero m)
  uncancelled := ⟨rfl, rfl⟩
  ready := ⟨rfl, rfl⟩
  read := rfl

theorem beamSize_prints : wholeNumbers.Prints [("beam-size", .number 5)] "beam-size" := by
  refine ⟨by decide, fun entry hmem hother => ?_⟩
  rw [List.mem_singleton.mp hmem] at hother
  exact absurd rfl hother

theorem beamSize_tells (scalar : JsonScalar)
    (h : Dict.get? [("beam-size", .number 5)] "beam-size" = some scalar) :
    wholeNumbers.Tells scalar := by
  obtain rfl : .number 5 = scalar := Option.some.inj h
  exact shows_five

end Config

end Myna
