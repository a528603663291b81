import Myna.Config.ApplyPlan

/-!
# Myna — the commands a privileged plan can hold

The commands of the two kinds of plan, with fields that carry what the validator checks, so that no
other command can be written down.

* **`Command`**, **`Command.operation`** — a command, and its argument vector;
* **`validateOperation_iff`** — the validator accepts exactly the operations of such commands;
* **`options_arguments`** — the arguments that can be taken for options are those of the command.
-/

namespace Myna

namespace Config

/-! ## Well-formed fields -/

structure SnapName where
  name : String
  valid : isValidSnapName name = true

/-- A snap's `modelctl`: the snap's own app, or a command of it. -/
structure ModelctlApp where
  snap : SnapName
  command : Option SnapName

def ModelctlApp.text (app : ModelctlApp) : String :=
  match app.command with
  | none => app.snap.name
  | some command => app.snap.name ++ "." ++ command.name

structure Assignment where
  key : String
  value : String
  valid : isConfigKey key = true

def Assignment.text (a : Assignment) : String := a.key ++ "=" ++ a.value

/-- A model or an engine: some text that is no option. -/
structure Word where
  text : String
  valid : text.isEmpty = false ∧ isOption text = false

inductive MynaSnap
  | myna
  | family (f : ModelFamily)

def MynaSnap.name : MynaSnap → String
  | .myna => MYNA_SNAP
  | .family f => f.snapName

/-! ## Commands -/

inductive Command
  | restart (snap : SnapName)
  | set (app : ModelctlApp) (first : Assignment) (rest : List Assignment)
  | pruneCache (app : ModelctlApp)
  | useModel (app : ModelctlApp) (model : Word)
  | useEngine (app : ModelctlApp) (engine : Word)
  | autoEngine (app : ModelctlApp)
  | userDaemons
  | install (snap : MynaSnap)
  | connect (family : ModelFamily)

namespace Command

/-- The kind of plan that a command belongs to. -/
def kind : Command → PlanKind
  | userDaemons => .setUp
  | install _ => .setUp
  | connect _ => .setUp
  | _ => .apply

def arguments : Command → List String
  | restart snap => ["restart", snap.name]
  | set app first rest =>
    "run" :: app.text :: "set" :: (first :: rest).map Assignment.text ++ MODELCTL_TAIL
  | pruneCache app => ["run", app.text, "prune-cache"]
  | useModel app model => "run" :: app.text :: "use-model" :: model.text :: MODELCTL_TAIL
  | useEngine app engine => "run" :: app.text :: "use-engine" :: engine.text :: MODELCTL_TAIL
  | autoEngine app => "run" :: app.text :: "use-engine" :: "--auto" :: MODELCTL_TAIL
  | userDaemons => ["set", "system", "experimental.user-daemons=true"]
  | install snap => ["install", "--edge", snap.name]
  | connect family => ["connect", "myna:backend", family.snapName ++ ":provider"]

/-- The options of a command. -/
def options : Command → List String
  | set .. => MODELCTL_TAIL
  | useModel .. => MODELCTL_TAIL
  | useEngine .. => MODELCTL_TAIL
  | autoEngine _ => "--auto" :: MODELCTL_TAIL
  | install _ => ["--edge"]
  | _ => []

def operation (c : Command) : PlanOperation := ⟨ALLOWED_EXECUTABLE, c.arguments⟩

end Command

/-! ## What the predicates say -/

theorem snapNameChars_spec {c : Char} : ∀ {chars : List Char} {prevHyphen : Bool},
    snapNameChars chars prevHyphen = true → c ∈ chars →
      isAsciiLowercase c = true ∨ isAsciiDigit c = true ∨ c = '-'
  | [], _, _, hmem => by cases hmem
  | d :: chars, prevHyphen, h, hmem => by
    rw [snapNameChars] at h
    split at h
    case isTrue hd =>
      rcases List.mem_cons.mp hmem with rfl | hmem
      · rcases Bool.or_eq_true_iff.mp hd with hd | hd
        · exact .inl hd
        · exact .inr (.inl hd)
      · exact snapNameChars_spec h hmem
    case isFalse =>
      split at h
      case isTrue hd =>
        split at h
        · cases h
        · rcases List.mem_cons.mp hmem with rfl | hmem
          · exact .inr (.inr hd)
          · exact snapNameChars_spec h hmem
      case isFalse => cases h

theorem ne_of_test {test : Char → Bool} {c d : Char} (h : test c = true)
    (hd : test d = false) : c ≠ d := by
  rintro rfl
  rw [h] at hd
  cases hd

/-- A snap's name is not empty, is no option, and has no dot. -/
theorem isValidSnapName_spec {name : String} (h : isValidSnapName name = true) :
    isOption name = false ∧ '.' ∉ name.toList := by
  unfold isValidSnapName at h
  split at h
  · cases h
  split at h
  · cases h
  split at h
  · cases h
  case isFalse hhead _ =>
    constructor
    · cases hlist : name.toList with
      | nil =>
        rw [hlist] at hhead
        exact absurd rfl hhead
      | cons c rest =>
        rw [hlist] at hhead
        have hc : isAsciiLowercase c = true ∨ isAsciiDigit c = true := by
          apply Bool.or_eq_true_iff.mp
          by_contra hneg
          apply hhead
          show (!(isAsciiLowercase c || isAsciiDigit c)) = true
          rw [Bool.eq_false_iff.mpr hneg]
          rfl
        have hne : c ≠ '-' := by
          rcases hc with hc | hc
          · exact ne_of_test hc (by decide)
          · exact ne_of_test hc (by decide)
        simpa [isOption, hlist] using hne
    · intro hdot
      rcases snapNameChars_spec h hdot with hc | hc | hc
      · exact absurd rfl (ne_of_test hc (by decide))
      · exact absurd rfl (ne_of_test hc (by decide))
      · cases hc

theorem isConfigKey_spec {key : String} (h : isConfigKey key = true) :
    key.toList ≠ [] ∧ isOption key = false ∧ '=' ∉ key.toList := by
  unfold isConfigKey at h
  obtain ⟨⟨hne, hhead⟩, hall⟩ := by simpa only [Bool.and_eq_true] using h
  refine ⟨by simpa using hne, by simpa [isOption] using hhead, ?_⟩
  intro hmem
  have := List.all_eq_true.mp hall '=' hmem
  exact absurd this (by decide)

theorem checkAll_eq_ok {α ε : Type} {check : α → Except ε Unit} : ∀ {l : List α},
    checkAll check l = .ok () ↔ ∀ a ∈ l, check a = .ok ()
  | [] => by simp [checkAll]
  | a :: l => by
    rw [checkAll]
    cases h : check a with
    | error e => simp [h]
    | ok u => simp [h, checkAll_eq_ok (l := l)]

theorem ModelFamily.fromSnapName_eq_some {snap : String} {f : ModelFamily} :
    ModelFamily.fromSnapName snap = some f ↔ snap = f.snapName := by
  constructor
  · intro h
    have := List.find?_some h
    exact (of_decide_eq_true this).symm
  · rintro rfl
    cases f <;> decide

theorem isMynas_iff {snap : String} : isMynas snap = true ↔ ∃ m : MynaSnap, snap = m.name := by
  unfold isMynas
  constructor
  · intro h
    rcases Bool.or_eq_true_iff.mp h with h | h
    · exact ⟨.myna, of_decide_eq_true h⟩
    · obtain ⟨f, hf⟩ := Option.isSome_iff_exists.mp h
      exact ⟨.family f, ModelFamily.fromSnapName_eq_some.mp hf⟩
  · rintro ⟨m | f, rfl⟩
    · rfl
    · have := ModelFamily.fromSnapName_eq_some.mpr (rfl : f.snapName = f.snapName)
      simp [MynaSnap.name, this]

theorem providerOf_eq_some {slot snap : String} :
    providerOf slot = some snap ↔ slot = snap ++ ":provider" := by
  unfold providerOf
  rw [Option.map_eq_some_iff]
  constructor
  · rintro ⟨rest, hrest, rfl⟩
    apply String.toList_inj.mp
    rw [List.stripSuffix_eq_some.mp hrest]
    simp
  · rintro rfl
    exact ⟨snap.toList, List.stripSuffix_eq_some.mpr (by simp), by simp⟩

theorem isModelctlApp_iff {app : String} :
    isModelctlApp app = true ↔ ∃ a : ModelctlApp, app = a.text := by
  unfold isModelctlApp
  cases hsplit : List.splitOnce ['.'] app.toList with
  | none =>
    have hdot := List.splitOnce_eq_none.mp hsplit
    constructor
    · intro h
      exact ⟨⟨⟨app, h⟩, none⟩, rfl⟩
    · rintro ⟨⟨snap, _ | command⟩, rfl⟩
      · exact snap.valid
      · -- a command stands after a dot
        refine absurd ?_ hdot
        simp [ModelctlApp.text]
  | some parts =>
    obtain ⟨snap, command⟩ := parts
    obtain ⟨hlist, hdot⟩ := List.splitOnce_singleton.mp hsplit
    constructor
    · intro h
      obtain ⟨hsnap, hcommand⟩ := Bool.and_eq_true_iff.mp h
      refine ⟨⟨⟨_, hsnap⟩, some ⟨_, hcommand⟩⟩, ?_⟩
      apply String.toList_inj.mp
      simp [ModelctlApp.text, hlist]
    · rintro ⟨⟨s, _ | c⟩, rfl⟩
      · -- a snap's name has no dot to cut at
        refine absurd ?_ (isValidSnapName_spec s.valid).2
        show '.' ∈ s.name.toList
        have : (ModelctlApp.mk s none).text = s.name := rfl
        rw [this] at hlist
        rw [hlist]
        simp
      · have hcut : List.splitOnce ['.'] (ModelctlApp.mk s (some c)).text.toList
            = some (s.name.toList, c.name.toList) :=
          List.splitOnce_singleton.mpr
            ⟨by simp [ModelctlApp.text], (isValidSnapName_spec s.valid).2⟩
        rw [hsplit] at hcut
        obtain ⟨rfl, rfl⟩ := Prod.mk.inj (Option.some.inj hcut)
        simp [s.valid, c.valid]

theorem validateAssignment_iff {assignment : String} :
    validateAssignment assignment = .ok () ↔ ∃ a : Assignment, assignment = a.text := by
  unfold validateAssignment
  cases hsplit : List.splitOnce ['='] assignment.toList with
  | none =>
    have hnot := List.splitOnce_eq_none.mp hsplit
    constructor
    · intro h
      cases h
    · rintro ⟨a, rfl⟩
      refine absurd ?_ hnot
      simp [Assignment.text]
  | some parts =>
    obtain ⟨key, value⟩ := parts
    obtain ⟨hlist, hnot⟩ := List.splitOnce_singleton.mp hsplit
    simp only
    constructor
    · intro h
      split at h
      case isTrue hkey =>
        refine ⟨⟨String.ofList key, String.ofList value, hkey⟩, ?_⟩
        apply String.toList_inj.mp
        simp [Assignment.text, hlist]
      case isFalse => cases h
    · rintro ⟨a, rfl⟩
      have hcut : List.splitOnce ['='] a.text.toList = some (a.key.toList, a.value.toList) :=
        List.splitOnce_singleton.mpr
          ⟨by simp [Assignment.text], (isConfigKey_spec a.valid).2.2⟩
      rw [hsplit] at hcut
      obtain ⟨rfl, rfl⟩ := Prod.mk.inj (Option.some.inj hcut)
      rw [String.ofList_toList, if_pos a.valid]

/-! ## What the validator accepts -/

theorem checkAll_validateAssignment_iff {assignments : List String} :
    checkAll validateAssignment assignments = .ok () ↔
      ∃ l : List Assignment, assignments = l.map Assignment.text := by
  rw [checkAll_eq_ok]
  induction assignments with
  | nil => simp
  | cons a assignments ih =>
    rw [List.forall_mem_cons, ih, validateAssignment_iff]
    constructor
    · rintro ⟨⟨first, rfl⟩, rest, rfl⟩
      exact ⟨first :: rest, rfl⟩
    · rintro ⟨_ | ⟨first, rest⟩, hl⟩
      · cases hl
      · obtain ⟨rfl, rfl⟩ := List.cons.inj hl
        exact ⟨⟨first, rfl⟩, rest, rfl⟩

section

-- the three set-up operations, one branch each

theorem validateSetUp_userDaemons :
    validateSetUp ["set", "system", "experimental.user-daemons=true"] = .ok () := by
  unfold validateSetUp
  split
  case h_1 => rfl
  case h_2 h => simp at h
  case h_3 h => simp at h
  case h_4 h _ _ => exact absurd rfl h

theorem validateSetUp_install (snap : String) :
    validateSetUp ["install", "--edge", snap] =
      if isMynas snap then .ok () else .error (snap ++ " is not one of Myna's snaps") := by
  unfold validateSetUp
  split
  case h_1 h => simp at h
  case h_2 h =>
    obtain rfl : snap = _ := by simpa using h
    rfl
  case h_3 h => simp at h
  case h_4 h _ => exact absurd rfl (h snap)

theorem validateSetUp_connect (slot : String) :
    validateSetUp ["connect", "myna:backend", slot] =
      match providerOf slot with
      | some snap =>
        if (ModelFamily.fromSnapName snap).isSome then .ok ()
        else .error (slot ++ " is not a model's provider slot")
      | none => .error (slot ++ " is not a model's provider slot") := by
  unfold validateSetUp
  split
  case h_1 h => simp at h
  case h_2 h => simp at h
  case h_3 h =>
    obtain rfl : slot = _ := by simpa using h
    rfl
  case h_4 h => exact absurd rfl (h slot)

end

theorem validateSetUp_iff {args : List String} :
    validateSetUp args = .ok () ↔ ∃ c : Command, c.kind = .setUp ∧ c.arguments = args := by
  constructor
  · intro h
    unfold validateSetUp at h
    split at h
    · exact ⟨.userDaemons, rfl, rfl⟩
    · split at h
      case isTrue hsnap =>
        obtain ⟨m, rfl⟩ := isMynas_iff.mp hsnap
        exact ⟨.install m, rfl, rfl⟩
      case isFalse => cases h
    · split at h
      case h_1 snap hslot =>
        split at h
        case isTrue hsome =>
          obtain ⟨f, hf⟩ := Option.isSome_iff_exists.mp hsome
          rw [ModelFamily.fromSnapName_eq_some] at hf
          rw [providerOf_eq_some, hf] at hslot
          exact ⟨.connect f, rfl, by rw [hslot]; rfl⟩
        case isFalse => cases h
      case h_2 => cases h
    · cases h
  · rintro ⟨c, hkind, rfl⟩
    cases c with
    | userDaemons => exact validateSetUp_userDaemons
    | install m => exact (validateSetUp_install m.name).trans (if_pos (isMynas_iff.mpr ⟨m, rfl⟩))
    | connect f =>
      have hslot : providerOf (f.snapName ++ ":provider") = some f.snapName :=
        providerOf_eq_some.mpr rfl
      refine (validateSetUp_connect _).trans ?_
      simp only [hslot]
      rw [ModelFamily.fromSnapName_eq_some.mpr rfl]
      rfl
    | restart | set | pruneCache | useModel | useEngine | autoEngine => cases hkind

theorem validateApply_iff {args : List String} :
    validateApply args = .ok () ↔ ∃ c : Command, c.kind = .apply ∧ c.arguments = args := by
  constructor
  · intro h
    unfold validateApply at h
    split at h
    case h_1 snap =>
      split at h
      case isTrue hsnap => exact ⟨.restart ⟨snap, hsnap⟩, rfl, rfl⟩
      case isFalse => cases h
    case h_2 app rest =>
      split at h
      case isFalse => cases h
      case isTrue happ =>
        obtain ⟨a, rfl⟩ := isModelctlApp_iff.mp happ
        split at h
        case h_1 => cases h
        case h_2 assignments hrest =>
          split at h
          case isTrue => cases h
          case isFalse hne =>
            obtain ⟨_ | ⟨first, l⟩, rfl⟩ := checkAll_validateAssignment_iff.mp h
            · exact absurd rfl hne
            · refine ⟨.set a first l, rfl, ?_⟩
              rw [List.stripSuffix_eq_some.mp hrest]
              rfl
    case h_3 app =>
      split at h
      case isTrue happ =>
        obtain ⟨a, rfl⟩ := isModelctlApp_iff.mp happ
        exact ⟨.pruneCache a, rfl, rfl⟩
      case isFalse => cases h
    case h_4 app model tail =>
      split at h
      case isFalse => cases h
      case isTrue happ =>
        obtain ⟨a, rfl⟩ := isModelctlApp_iff.mp happ
        split at h
        case isTrue => cases h
        case isFalse hmodel =>
          split at h
          case isTrue => cases h
          case isFalse htail =>
            rw [Bool.or_eq_true, not_or, Bool.not_eq_true, Bool.not_eq_true] at hmodel
            refine ⟨.useModel a ⟨model, hmodel⟩, rfl, ?_⟩
            rw [not_not.mp htail]
            rfl
    case h_5 app engine tail =>
      split at h
      case isFalse => cases h
      case isTrue happ =>
        obtain ⟨a, rfl⟩ := isModelctlApp_iff.mp happ
        split at h
        case isTrue => cases h
        case isFalse hengine =>
          split at h
          case isTrue => cases h
          case isFalse htail =>
            rw [not_not.mp htail]
            by_cases hauto : engine = "--auto"
            · subst hauto
              exact ⟨.autoEngine a, rfl, rfl⟩
            · have hword : engine.isEmpty = false ∧ isOption engine = false := by
                simpa [hauto] using hengine
              exact ⟨.useEngine a ⟨engine, hword⟩, rfl, rfl⟩
    case h_6 => cases h
  · rintro ⟨c, hkind, rfl⟩
    have happ : ∀ a : ModelctlApp, isModelctlApp a.text = true :=
      fun a => isModelctlApp_iff.mpr ⟨a, rfl⟩
    cases c with
    | restart snap => simp [Command.arguments, validateApply, snap.valid]
    | set app first rest =>
      have hend : List.stripSuffix ((first :: rest).map Assignment.text ++ MODELCTL_TAIL)
          MODELCTL_TAIL = some ((first :: rest).map Assignment.text) :=
        List.stripSuffix_eq_some.mpr rfl
      have hall := checkAll_validateAssignment_iff.mpr ⟨first :: rest, rfl⟩
      show validateApply ("run" :: app.text :: "set" ::
        ((first :: rest).map Assignment.text ++ MODELCTL_TAIL)) = .ok ()
      unfold validateApply
      simp only [happ app, if_true, hend, hall]
      rfl
    | pruneCache app => simp [Command.arguments, validateApply, happ app]
    | useModel app model =>
      simp [Command.arguments, validateApply, happ app, model.valid]
    | useEngine app engine =>
      simp [Command.arguments, validateApply, happ app, engine.valid]
    | autoEngine app => simp [Command.arguments, validateApply, happ app]
    | userDaemons | install | connect => cases hkind

/-- **An operation is accepted exactly when it is a command of the plan's kind.** -/
theorem validateOperation_iff {kind : PlanKind} {op : PlanOperation} :
    validateOperation kind op = .ok () ↔ ∃ c : Command, c.kind = kind ∧ c.operation = op := by
  obtain ⟨executable, args⟩ := op
  unfold validateOperation
  constructor
  · intro h
    split at h
    case isTrue => cases h
    case isFalse hexe =>
      have hexe : ALLOWED_EXECUTABLE = executable := (not_not.mp hexe).symm
      cases kind with
      | apply =>
        obtain ⟨c, hkind, hargs⟩ := validateApply_iff.mp h
        exact ⟨c, hkind, congr (congrArg PlanOperation.mk hexe) hargs⟩
      | setUp =>
        obtain ⟨c, hkind, hargs⟩ := validateSetUp_iff.mp h
        exact ⟨c, hkind, congr (congrArg PlanOperation.mk hexe) hargs⟩
  · rintro ⟨c, hkind, hop⟩
    obtain ⟨rfl, hargs⟩ := PlanOperation.mk.inj hop
    rw [if_neg (not_not.mpr rfl)]
    cases kind with
    | apply => exact validateApply_iff.mpr ⟨c, hkind, hargs⟩
    | setUp => exact validateSetUp_iff.mpr ⟨c, hkind, hargs⟩

/-! ## Options -/

theorem isOption_append {a b : String} (hne : a.toList ≠ []) (h : isOption a = false) :
    isOption (a ++ b) = false := by
  unfold isOption at *
  rw [String.toList_append, List.head?_append_of_ne_nil _ hne]
  exact h

theorem SnapName.toList_ne_nil (s : SnapName) : s.name.toList ≠ [] := by
  intro hnil
  have hname : s.name = "" := String.toList_inj.mp hnil
  have hvalid := s.valid
  rw [hname] at hvalid
  exact absurd hvalid (by decide)

theorem isOption_app (app : ModelctlApp) : isOption app.text = false := by
  obtain ⟨snap, command⟩ := app
  have hsnap := (isValidSnapName_spec snap.valid).1
  cases command with
  | none => exact hsnap
  | some command =>
    have happ := isOption_append (b := ".") snap.toList_ne_nil hsnap
    exact isOption_append (by simp) happ

theorem isOption_assignment (a : Assignment) : isOption a.text = false := by
  obtain ⟨hne, hopt, -⟩ := isConfigKey_spec a.valid
  have hkey := isOption_append (b := "=") hne hopt
  exact isOption_append (by simp) hkey

theorem filter_assignments (l : List Assignment) :
    (l.map Assignment.text).filter isOption = [] := by
  rw [List.filter_eq_nil_iff]
  intro text hmem
  obtain ⟨a, -, rfl⟩ := List.mem_map.mp hmem
  rw [isOption_assignment]
  exact Bool.false_ne_true

theorem MynaSnap.isOption_name (m : MynaSnap) : isOption m.name = false := by
  rcases m with _ | _ | _ | _ <;> decide

/-- **Only the options of a command can be taken for options.** -/
theorem options_arguments (c : Command) : c.arguments.filter isOption = c.options := by
  have hword : ∀ w : Word, isOption w.text = false := fun w => w.valid.2
  have hrun : isOption "run" = false := by decide
  have htail : MODELCTL_TAIL.filter isOption = MODELCTL_TAIL := by decide
  cases c with
  | restart snap =>
    have hsnap := (isValidSnapName_spec snap.valid).1
    have hrestart : isOption "restart" = false := by decide
    simp [Command.arguments, Command.options, hsnap, hrestart]
  | set app first rest =>
    have hset : isOption "set" = false := by decide
    show ("run" :: app.text :: "set" :: ((first :: rest).map Assignment.text
      ++ MODELCTL_TAIL)).filter isOption = MODELCTL_TAIL
    simp only [List.filter_cons, List.filter_append, hrun, hset, isOption_app, htail,
      filter_assignments, Bool.false_eq_true, if_false, List.nil_append]
  | pruneCache app =>
    have hprune : isOption "prune-cache" = false := by decide
    simp [Command.arguments, Command.options, isOption_app, hrun, hprune]
  | useModel app model =>
    have huse : isOption "use-model" = false := by decide
    simp [Command.arguments, Command.options, isOption_app, hword, hrun, huse, htail]
  | useEngine app engine =>
    have huse : isOption "use-engine" = false := by decide
    simp [Command.arguments, Command.options, isOption_app, hword, hrun, huse, htail]
  | autoEngine app =>
    have huse : isOption "use-engine" = false := by decide
    have hauto : isOption "--auto" = true := by decide
    simp [Command.arguments, Command.options, isOption_app, hrun, huse, hauto, htail]
  | userDaemons => decide
  | install m =>
    have hinstall : isOption "install" = false := by decide
    have hedge : isOption "--edge" = true := by decide
    simp [Command.arguments, Command.options, m.isOption_name, hinstall, hedge]
  | connect f => cases f <;> decide

/-- The two kinds share no argument vector. -/
theorem kind_eq_of_arguments {c d : Command} (h : c.arguments = d.arguments) :
    c.kind = d.kind := by
  cases c <;> cases d <;> first | rfl | simp [Command.arguments] at h

end Config

end Myna
