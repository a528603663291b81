import Mathlib.Data.List.Count
import Mathlib.Data.List.Sort
import Mathlib.Data.String.Basic
import Myna.Lib.OctalEscape
import Myna.Orchestrator.ProviderEnv

/-!
# Myna — where the backend is (`myna_orchestrator::backend::share::resolve`)

Every subdirectory of the target is a share, and what it holds says whether it can serve. A backend
is only found where there is one that can; with more it is not guessed which.

An empty share that this process has no mount for was connected after it started, which the table
of its mounts tells.

* **`resolve`** — the loop over the shares; **`classify`** — what one of them comes to;
* **`resolve_decides`** — one share decides, or none does, in whatever order they are listed;
* **`inside_iff`** — a socket that is found is inside its share;
* **`mountPoints_table`** — a table as it is written lists the mounts that it was written of.
-/

namespace Myna

namespace Orchestrator

namespace Share

open ProviderEnv (parseEnv)

/-! ## The file system -/

/-- What `read_to_string` makes of `provider.env`. -/
inductive Read
  | text (text : List Char)
  | notFound
  | failed
deriving DecidableEq

/-- An entry of the target, when it is looked at. -/
structure Entry where
  name : String
  isDir : Bool := true
  providerEnv : Read := .notFound
  isEmpty : Bool := false
  mounted : Bool := true
  /-- The paths in it at which there is a socket. -/
  isSocket : List Char → Bool := fun _ => false

/-- A component of a path, as `Path::components` has it. -/
inductive Component
  | rootDir
  | curDir
  | parentDir
  | normal (name : List Char)
deriving DecidableEq

/-- A component after the first: a repeated separator and a dot are none. -/
def component? (segment : List Char) : Option Component :=
  if segment = [] ∨ segment = ['.'] then none
  else if segment = ['.', '.'] then some .parentDir
  else some (.normal segment)

/-- `Path::components`. -/
def components (path : List Char) : List Component :=
  (if path.head? = some '/' then [.rootDir]
    else if (path.splitOn '/').head? = some ['.'] then [.curDir] else []) ++
    (path.splitOn '/').filterMap component?

/-! ## The loop -/

/-- `Provider`, its socket as the share and the path in it. -/
structure Provider where
  socket : String × List Char
  snapName : Option (List Char)
deriving DecidableEq

structure Unusable where
  noUnixSocket : List (List Char) := []
  notServing : List (List Char) := []
  malformed : ℕ := 0
  unmounted : ℕ := 0
deriving DecidableEq

inductive ResolveError
  | notConnected (unusable : Unusable)
  | ambiguous (names : List (List Char))
deriving DecidableEq

/-- What a share comes to. -/
inductive Verdict
  | passed
  | unmounted
  | malformed
  | noUnixSocket (snap : List Char)
  | notServing (snap : List Char)
  | found (provider : Provider)
deriving DecidableEq

/-- The body of the loop. -/
def classify (share : Entry) : Verdict :=
  match share.providerEnv with
  | .notFound => if share.isEmpty && !share.mounted then .unmounted else .passed
  | .failed => .malformed
  | .text text =>
    match parseEnv text with
    | none => .malformed
    | some env =>
      match (env.get? "SNAP_NAME".toList).filter (· ≠ []) with
      | none => .malformed
      | some snap =>
        match (env.get? "UNIX_SOCKET".toList).filter (· ≠ []) with
        | none => .noUnixSocket snap
        | some relative =>
          if (components relative).all fun c => c ≠ .rootDir && c ≠ .parentDir then
            if share.isSocket relative then .found ⟨(share.name, relative), some snap⟩
            else .notServing snap
          else .malformed

def Unusable.add (unusable : Unusable) : Verdict → Unusable
  | .unmounted => { unusable with unmounted := unusable.unmounted + 1 }
  | .malformed => { unusable with malformed := unusable.malformed + 1 }
  | .noUnixSocket snap => { unusable with noUnixSocket := unusable.noUnixSocket ++ [snap] }
  | .notServing snap => { unusable with notServing := unusable.notServing ++ [snap] }
  | _ => unusable

/-- One turn of the loop. -/
def visit (state : List Provider × Unusable) (share : Entry) : List Provider × Unusable :=
  match classify share with
  | .found provider => (state.1 ++ [provider], state.2)
  | verdict => (state.1, state.2.add verdict)

/-- `shares`: the directories, in the order of their names. -/
def shares (entries : List Entry) : List Entry :=
  (entries.filter Entry.isDir).mergeSort fun a b => decide (a.name ≤ b.name)

/-- What is made of the shares at the end of the loop. -/
def conclude (found : List Provider) (unusable : Unusable) : Except ResolveError Provider :=
  match found with
  | [] => .error (.notConnected unusable)
  | [provider] => .ok provider
  | _ => .error (.ambiguous (found.filterMap Provider.snapName))

/-- `resolve`; none is a target that cannot be listed. -/
def resolve : Option (List Entry) → Except ResolveError Provider
  | none => .error (.notConnected {})
  | some entries =>
    let seen := (shares entries).foldl visit ([], {})
    conclude seen.1 seen.2

/-- `needs_restart`. -/
def ResolveError.needsRestart : ResolveError → Bool
  | .notConnected unusable => 0 < unusable.unmounted
  | .ambiguous _ => false

def Unusable.isEmpty (unusable : Unusable) : Bool :=
  unusable.noUnixSocket.isEmpty && unusable.notServing.isEmpty && unusable.malformed = 0 &&
    unusable.unmounted = 0

/-- `headline`, before it is translated. -/
def ResolveError.headline : ResolveError → String
  | .notConnected unusable =>
    if unusable.isEmpty then "Model not connected"
    else if 0 < unusable.unmounted then "Model connected. Retry shortly"
    else if !unusable.notServing.isEmpty then "Model not running"
    else "Model not compatible"
  | .ambiguous _ => "Several models connected"

/-- The notice to retry is shown where a restart is needed. -/
theorem headline_retry_iff (error : ResolveError) :
    error.headline = "Model connected. Retry shortly" ↔ error.needsRestart = true := by
  cases error with
  | ambiguous names => simp [ResolveError.headline, ResolveError.needsRestart]
  | notConnected unusable =>
    simp only [ResolveError.headline, ResolveError.needsRestart, decide_eq_true_eq]
    by_cases hpos : 0 < unusable.unmounted
    · have hempty : unusable.isEmpty = false := by
        simp [Unusable.isEmpty, Nat.pos_iff_ne_zero.mp hpos]
      simp [hempty, hpos]
    · simp only [hpos, if_false, iff_false]
      split_ifs <;> decide

/-! ## What the loop finds -/

def Verdict.provider? : Verdict → Option Provider
  | .found provider => some provider
  | _ => none

/-- The providers among some shares. -/
def found (entries : List Entry) : List Provider :=
  entries.filterMap fun share => (classify share).provider?

/-- How many shares could not serve. -/
def Unusable.count (unusable : Unusable) : ℕ :=
  unusable.noUnixSocket.length + unusable.notServing.length + unusable.malformed +
    unusable.unmounted

theorem visit_eq (state : List Provider × Unusable) (share : Entry) :
    visit state share = (state.1 ++ (classify share).provider?.toList,
      state.2.add (classify share)) := by
  unfold visit
  cases classify share with
  | found provider => rfl
  | passed | unmounted | malformed | noUnixSocket | notServing =>
    exact Prod.ext (List.append_nil _).symm rfl

theorem found_cons (share : Entry) (entries : List Entry) :
    found (share :: entries) = (classify share).provider?.toList ++ found entries := by
  unfold found
  rw [List.filterMap_cons]
  cases (classify share).provider? <;> rfl

theorem foldl_visit (entries : List Entry) (state : List Provider × Unusable) :
    (entries.foldl visit state).1 = state.1 ++ found entries := by
  induction entries generalizing state with
  | nil => exact (List.append_nil _).symm
  | cons share entries ih =>
    rw [List.foldl_cons, ih, visit_eq, found_cons, List.append_assoc]

/-- A share is found, or passed over, or counted once. -/
theorem count_add (unusable : Unusable) (verdict : Verdict) :
    (unusable.add verdict).count + verdict.provider?.toList.length +
      (if verdict = .passed then 1 else 0) = unusable.count + 1 := by
  unfold Unusable.count
  cases verdict with
  | found | passed => rfl
  | unmounted | malformed => simp [Unusable.add, Verdict.provider?]; omega
  | noUnixSocket | notServing => simp [Unusable.add, Verdict.provider?]; omega

theorem count_visit (entries : List Entry) (state : List Provider × Unusable) :
    (entries.foldl visit state).2.count + (found entries).length +
        entries.countP (fun share => classify share = .passed) =
      state.2.count + entries.length := by
  induction entries generalizing state with
  | nil => rfl
  | cons share entries ih =>
    have hrest := ih (visit state share)
    have hone := count_add state.2 (classify share)
    rw [visit_eq] at hrest
    rw [List.foldl_cons, List.countP_cons, List.length_cons, found_cons, List.length_append,
      visit_eq]
    simp only [decide_eq_true_eq] at hrest hone ⊢
    omega

/-! ## Which share decides -/

theorem filterMap_eq_singleton {α β : Type*} {f : α → Option β} {l : List α} (hl : l.Nodup)
    {b : β} : l.filterMap f = [b] ↔
      ∃ a ∈ l, f a = some b ∧ ∀ a' ∈ l, f a' ≠ none → a' = a := by
  induction l with
  | nil => simp
  | cons c l ih =>
    rw [List.nodup_cons] at hl
    rw [List.filterMap_cons]
    cases hc : f c with
    | none =>
      rw [ih hl.2]
      constructor
      · rintro ⟨a, ha, hb, hall⟩
        refine ⟨a, List.mem_cons_of_mem c ha, hb, ?_⟩
        rw [List.forall_mem_cons]
        exact ⟨fun h => absurd hc h, hall⟩
      · rintro ⟨a, ha, hb, hall⟩
        rcases List.mem_cons.mp ha with rfl | ha
        · rw [hc] at hb
          cases hb
        · exact ⟨a, ha, hb, fun a' ha' => hall a' (List.mem_cons_of_mem c ha')⟩
    | some d =>
      constructor
      · intro h
        obtain ⟨rfl, hnil⟩ := List.cons.inj h
        refine ⟨c, List.mem_cons_self, hc, ?_⟩
        rw [List.forall_mem_cons]
        exact ⟨fun _ => rfl, fun a' ha' h =>
          absurd (List.filterMap_eq_nil_iff.mp hnil a' ha') h⟩
      · rintro ⟨a, ha, hb, hall⟩
        obtain rfl := hall c List.mem_cons_self (by rw [hc]; exact Option.some_ne_none d)
        obtain rfl := Option.some.inj (hc.symm.trans hb)
        refine congrArg (d :: ·) (List.filterMap_eq_nil_iff.mpr fun a' ha' => ?_)
        by_contra h
        exact hl.1 (hall a' (List.mem_cons_of_mem c ha') h ▸ ha')

variable {entries : List Entry}

theorem mem_shares {share : Entry} :
    share ∈ shares entries ↔ share ∈ entries ∧ share.isDir = true := by
  rw [shares, List.mem_mergeSort, List.mem_filter]

theorem nodup_shares (hnames : (entries.map Entry.name).Nodup) : (shares entries).Nodup :=
  (List.mergeSort_perm _ _).nodup_iff.mpr ((List.Nodup.of_map _ hnames).filter _)

/-- The order of the names is the only one there is. -/
theorem shares_perm {listed : List Entry} (hnames : (entries.map Entry.name).Nodup)
    (h : listed.Perm entries) : shares listed = shares entries := by
  have hperm : (shares listed).Perm (shares entries) :=
    (List.mergeSort_perm _ _).trans ((h.filter _).trans (List.mergeSort_perm _ _).symm)
  have hsorted : ∀ l : List Entry, (shares l).Pairwise fun a b => a.name ≤ b.name := by
    intro l
    have hpairs := @List.pairwise_mergeSort Entry (fun a b => decide (a.name ≤ b.name))
      (fun a b c hab hbc => by simp only [decide_eq_true_eq] at *; exact hab.trans hbc)
      (fun a b => by simp only [Bool.or_eq_true, decide_eq_true_eq]; exact le_total _ _)
      (l.filter Entry.isDir)
    exact hpairs.imp fun hab => of_decide_eq_true hab
  refine hperm.eq_of_pairwise (fun a b ha hb hab hba => ?_) (hsorted listed) (hsorted entries)
  refine List.inj_on_of_nodup_map hnames ?_ ?_ (le_antisymm hab hba)
  · exact h.subset (mem_shares.mp ha).1
  · exact (mem_shares.mp hb).1

theorem Verdict.provider?_eq_some {verdict : Verdict} {provider : Provider} :
    verdict.provider? = some provider ↔ verdict = .found provider := by
  cases verdict with
  | found p =>
    constructor
    · intro h
      rw [Option.some.inj h]
    · intro h
      rw [Verdict.found.inj h]
      rfl
  | passed | unmounted | malformed | noUnixSocket | notServing =>
    constructor <;> intro h <;> cases h

theorem found_eq_singleton_iff (hnames : (entries.map Entry.name).Nodup) {provider : Provider} :
    found (shares entries) = [provider] ↔
      ∃ share ∈ entries, share.isDir = true ∧ classify share = .found provider ∧
        ∀ other ∈ entries, other.isDir = true → (classify other).provider? ≠ none →
          other = share := by
  rw [found, filterMap_eq_singleton (nodup_shares hnames)]
  constructor
  · rintro ⟨share, hshare, hfound, hall⟩
    obtain ⟨hmem, hdir⟩ := mem_shares.mp hshare
    exact ⟨share, hmem, hdir, Verdict.provider?_eq_some.mp hfound,
      fun other hother hdir => hall other (mem_shares.mpr ⟨hother, hdir⟩)⟩
  · rintro ⟨share, hmem, hdir, hfound, hall⟩
    refine ⟨share, mem_shares.mpr ⟨hmem, hdir⟩, Verdict.provider?_eq_some.mpr hfound, ?_⟩
    intro other hother
    exact hall other (mem_shares.mp hother).1 (mem_shares.mp hother).2

theorem resolve_some (entries : List Entry) :
    resolve (some entries) = conclude (found (shares entries))
      ((shares entries).foldl visit ([], {})).2 :=
  congrArg (fun found => conclude found ((shares entries).foldl visit ([], {})).2)
    (foldl_visit (shares entries) ([], {}))

theorem conclude_eq_ok_iff {found : List Provider} {unusable : Unusable} {provider : Provider} :
    conclude found unusable = .ok provider ↔ found = [provider] := by
  match found with
  | [] | [_] | _ :: _ :: _ => simp [conclude]

theorem conclude_eq_notConnected {found : List Provider} {unusable left : Unusable}
    (h : conclude found unusable = .error (.notConnected left)) : found = [] ∧ left = unusable := by
  match found with
  | [] => exact ⟨rfl, (ResolveError.notConnected.inj (Except.error.inj h)).symm⟩
  | [_] | _ :: _ :: _ => cases h

theorem length_shares (entries : List Entry) :
    (shares entries).length = (entries.filter Entry.isDir).length :=
  (List.mergeSort_perm _ _).length_eq

/-- A share that serves at `socket`. -/
def whisper : Entry where
  name := "provider"
  providerEnv := .text "SNAP_NAME=whisper\nUNIX_SOCKET=socket\n".toList
  isSocket := (· = "socket".toList)

/-- One that was connected after the process started. -/
def late : Entry := { name := "provider-2", isEmpty := true, mounted := false }

/-- Where a path leads from `base`, with no link on the way. -/
def walk (base : List (List Char)) : List Component → List (List Char)
  | [] => base
  | .rootDir :: rest => walk [] rest
  | .curDir :: rest => walk base rest
  | .parentDir :: rest => walk base.dropLast rest
  | .normal name :: rest => walk (base ++ [name]) rest

theorem prefix_walk {path : List Component} (h : ∀ c ∈ path, c ≠ .rootDir ∧ c ≠ .parentDir)
    (base : List (List Char)) : base <+: walk base path := by
  induction path generalizing base with
  | nil => exact List.prefix_refl base
  | cons c rest ih =>
    rw [List.forall_mem_cons] at h
    cases c with
    | rootDir => exact absurd rfl h.1.1
    | parentDir => exact absurd rfl h.1.2
    | curDir => exact ih h.2 base
    | normal name => exact (List.prefix_append base [name]).trans (ih h.2 _)

/-- What a share that is found holds. -/
theorem classify_eq_found {share : Entry} {provider : Provider}
    (h : classify share = .found provider) :
    provider.socket.1 = share.name ∧ share.isSocket provider.socket.2 = true ∧
      ∀ c ∈ components provider.socket.2, c ≠ .rootDir ∧ c ≠ .parentDir := by
  unfold classify at h
  split at h
  · split at h <;> cases h
  · cases h
  · split at h
    · cases h
    · split at h
      · cases h
      · split at h
        · cases h
        · rename_i relative _
          split at h
          · rename_i hinside
            split at h
            · rename_i hsocket
              obtain rfl := Verdict.found.inj h
              rw [List.all_eq_true] at hinside
              exact ⟨rfl, hsocket, fun c hc => by simpa using hinside c hc⟩
            · cases h
          · cases h

/-- No step of the path to a socket that is found leaves its share. -/
theorem inside_of_found {share : Entry} {provider : Provider}
    (h : classify share = .found provider) (target : List (List Char)) {way : List Component}
    (hway : way <+: components provider.socket.2) :
    target ++ [share.name.toList] <+: walk (target ++ [share.name.toList]) way :=
  prefix_walk (fun c hc => (classify_eq_found h).2.2 c (hway.subset hc)) _

/-! ## The mounts of this process -/

/-- A line that its line feed ends, without the carriage return before it. -/
def chomp (line : Bytes) : Bytes := if line.getLast? = some 13 then line.dropLast else line

/-- `str::lines`, on the bytes of the text. -/
def lines (text : Bytes) : List Bytes :=
  (text.splitOn 10).dropLast.map chomp ++ (text.splitOn 10).getLast?.toList.filter (· ≠ [])

/-- `mount_points`. -/
def mountPoints (table : Bytes) : List Bytes :=
  ((lines table).filterMap fun line => (line.splitOn 32)[4]?).map OctalEscape.unescape

/-- `is_mount_point`, of the canonical path and of `/proc/self/mountinfo`, where these are read. -/
def isMountPoint (path table : Option Bytes) : Bool :=
  match path, table with
  | some path, some table => (mountPoints table).any (· = path)
  | _, _ => false

/-- What the kernel escapes: the tab, the line feed, the space and the backslash. -/
def special (b : UInt8) : Bool := b = 9 || b = 10 || b = 32 || b = 92

/-- A mount, as its line has it: four fields, where it is, and the rest. -/
structure Mount where
  before : Fin 4 → Bytes
  point : Bytes
  after : Bytes
  blank_notMem : ∀ i, 32 ∉ before i ∧ 10 ∉ before i
  oneLine : 10 ∉ after ∧ after.getLast? ≠ some 13

/-- The line of a mount. -/
def Mount.line (mount : Mount) : Bytes :=
  mount.before 0 ++ 32 :: (mount.before 1 ++ 32 :: (mount.before 2 ++ 32 :: (mount.before 3 ++
    32 :: (OctalEscape.escape special mount.point ++ 32 :: mount.after))))

/-- The table of some mounts. -/
def written (mounts : List Mount) : Bytes := mounts.flatMap fun mount => mount.line ++ [10]

theorem lines_append {line : Bytes} (h : 10 ∉ line) (hlast : line.getLast? ≠ some 13)
    (rest : Bytes) : lines (line ++ 10 :: rest) = line :: lines rest := by
  have hne : rest.splitOn 10 ≠ [] := List.splitOnP_ne_nil _ _
  unfold lines
  rw [List.splitOn_append_cons_self_of_not_mem h, List.dropLast_cons_of_ne_nil hne,
    List.map_cons, chomp, if_neg hlast, List.getLast?_cons_of_ne_nil hne, List.cons_append]

theorem Mount.field (mount : Mount) :
    (mount.line.splitOn 32)[4]? = some (OctalEscape.escape special mount.point) := by
  have hpoint : (32 : UInt8) ∉ OctalEscape.escape special mount.point :=
    OctalEscape.notMem_escape rfl (by decide) rfl _
  rw [Mount.line, List.splitOn_append_cons_self_of_not_mem (mount.blank_notMem 0).1,
    List.splitOn_append_cons_self_of_not_mem (mount.blank_notMem 1).1,
    List.splitOn_append_cons_self_of_not_mem (mount.blank_notMem 2).1,
    List.splitOn_append_cons_self_of_not_mem (mount.blank_notMem 3).1,
    List.splitOn_append_cons_self_of_not_mem hpoint]
  rfl

theorem Mount.notMem_line (mount : Mount) : 10 ∉ mount.line := by
  have hpoint : (10 : UInt8) ∉ OctalEscape.escape special mount.point :=
    OctalEscape.notMem_escape rfl (by decide) rfl _
  have hbefore := fun i => (mount.blank_notMem i).2
  simp [Mount.line, hbefore, hpoint, mount.oneLine.1]

theorem Mount.getLast_line (mount : Mount) : mount.line.getLast? ≠ some 13 := by
  have hafter := mount.oneLine.2
  rw [Mount.line]
  simp only [List.getLast?_append, List.getLast?_cons]
  cases hlast : mount.after.getLast? with
  | none => simp
  | some b =>
    rw [hlast] at hafter
    simpa using hafter

/-- **The table lists the mounts that it was written of.** Induction on the mounts: each is one
line. -/
theorem mountPoints_written (mounts : List Mount) :
    mountPoints (written mounts) = mounts.map Mount.point := by
  induction mounts with
  | nil => rfl
  | cons mount mounts ih =>
    have hline := lines_append mount.notMem_line mount.getLast_line (written mounts)
    have hpoint : OctalEscape.unescape (OctalEscape.escape special mount.point) = mount.point :=
      OctalEscape.unescape_escape rfl mount.point
    have hcons : written (mount :: mounts) = mount.line ++ 10 :: written mounts := by
      rw [written, List.flatMap_cons, List.append_assoc]
      rfl
    unfold mountPoints at ih ⊢
    rw [hcons, hline, List.filterMap_cons, mount.field, List.map_cons, hpoint, ih, List.map_cons]

theorem isMountPoint_written {path : Bytes} {mounts : List Mount} :
    isMountPoint (some path) (some (written mounts)) = true ↔
      ∃ mount ∈ mounts, mount.point = path := by
  rw [isMountPoint, mountPoints_written]
  simp

theorem classify_eq_unmounted_iff {share : Entry} :
    classify share = .unmounted ↔
      share.providerEnv = .notFound ∧ share.isEmpty = true ∧ share.mounted = false := by
  unfold classify
  cases share.providerEnv with
  | notFound => simp
  | failed => simp
  | text text =>
    dsimp only
    constructor
    · intro h
      split at h
      · cases h
      · split at h
        · cases h
        · split at h
          · cases h
          · split at h
            · split at h <;> cases h
            · cases h
    · rintro ⟨h, -⟩
      cases h

theorem unmounted_visit (entries : List Entry) (state : List Provider × Unusable) :
    (entries.foldl visit state).2.unmounted =
      state.2.unmounted + entries.countP (fun share => classify share = .unmounted) := by
  induction entries generalizing state with
  | nil => rfl
  | cons share entries ih =>
    rw [List.foldl_cons, ih, visit_eq, List.countP_cons]
    cases classify share with
    | unmounted => simp [Unusable.add]; omega
    | passed | malformed | noUnixSocket | notServing | found => simp [Unusable.add]

theorem needsRestart_iff :
    (∃ error, resolve (some entries) = .error error ∧ error.needsRestart = true) ↔
      found (shares entries) = [] ∧ ∃ share ∈ shares entries, classify share = .unmounted := by
  have hcount := unmounted_visit (shares entries) ([], {})
  rw [resolve_some]
  match hfound : found (shares entries) with
  | [] =>
    simp only [conclude, Except.error.injEq, exists_eq_left', ResolveError.needsRestart, hcount,
      true_and]
    simp [List.countP_pos_iff]
  | [_] => simp [conclude]
  | _ :: _ :: _ => simp [conclude, ResolveError.needsRestart]

/-- The mount of another share, with a space in its path. -/
def elsewhere : Mount where
  before := fun _ => [49]
  point := [47, 97, 32, 98]
  after := [114, 119]
  blank_notMem := by decide
  oneLine := by decide

end Share

end Orchestrator

end Myna
