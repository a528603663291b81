import Mathlib.Data.List.Perm.Basic
import Mathlib.Order.Lattice
import Mathlib.Data.Int.Order.Basic
import Mathlib.Tactic.Linarith

/-!
# Myna — the work area of a monitor (`myna_platform::status_surface`)

An X11 client reserves space at the screen's edges with the cardinals of a strut, which may be any.
`work_area` takes off a monitor what the struts reserve on it, in `i32` arithmetic.

* **`workArea_perm`** — in whichever order the struts come;
* **`run_fits`** — struts of moderate cardinals do not overflow;
* **`work_area_on_monitor`** — where the work area is.
-/

namespace Myna

namespace Platform

/-! ## Machine integers -/

def I32_MIN : ℤ := -2147483648

def I32_MAX : ℤ := 2147483647

/-- The result of an `i32` operation; none where it overflows. -/
def i32 (z : ℤ) : Option ℤ := if I32_MIN ≤ z ∧ z ≤ I32_MAX then some z else none

/-- `u as i32`. -/
def asI32 (u : UInt32) : ℤ := if u.toNat < 2147483648 then u.toNat else u.toNat - 4294967296

theorem i32_of_fits {z : ℤ} (hmin : I32_MIN ≤ z) (hmax : z ≤ I32_MAX) : i32 z = some z :=
  if_pos ⟨hmin, hmax⟩

/-! ## Rectangles and struts -/

/-- A rectangle in global screen coordinates. -/
structure Rect where
  x : ℤ
  y : ℤ
  width : ℤ
  height : ℤ
deriving DecidableEq

structure Size where
  width : ℤ
  height : ℤ

namespace Rect

def right (r : Rect) : Option ℤ := i32 (r.x + r.width)

def bottom (r : Rect) : Option ℤ := i32 (r.y + r.height)

/-- Each side is computed only where the comparisons before it hold. -/
def intersects (r other : Rect) : Option Bool := do
  if r.x < (← other.right) then
    if other.x < (← r.right) then
      if r.y < (← other.bottom) then return other.y < (← r.bottom)
      else return false
    else return false
  else return false

end Rect

inductive Side
  | left
  | right
  | top
  | bottom
deriving DecidableEq

/-- One window's `_NET_WM_STRUT_PARTIAL`. -/
structure Strut where
  left : UInt32 := 0
  right : UInt32 := 0
  top : UInt32 := 0
  bottom : UInt32 := 0
  leftStartY : UInt32 := 0
  leftEndY : UInt32 := 0
  rightStartY : UInt32 := 0
  rightEndY : UInt32 := 0
  topStartX : UInt32 := 0
  topEndX : UInt32 := 0
  bottomStartX : UInt32 := 0
  bottomEndX : UInt32 := 0

/-- The area's sides, as the loop narrows them. -/
structure Edges where
  left : ℤ
  top : ℤ
  right : ℤ
  bottom : ℤ

/-! ## The work area -/

/-- Where a strut starts along its edge, and how far it spans, its end included. -/
def span (start stop : UInt32) : Option (ℤ × ℤ) := do
  let length ← i32 (asI32 stop - asI32 start)
  let length ← i32 (length + 1)
  return (asI32 start, length)

/-- What a strut reserves at a side, measured from the screen's edge. -/
def Strut.band (s : Strut) (screen : Size) : Side → Option Rect
  | .left => do
    let (y, h) ← span s.leftStartY s.leftEndY
    return ⟨0, y, asI32 s.left, h⟩
  | .right => do
    let (y, h) ← span s.rightStartY s.rightEndY
    let edge ← i32 (screen.width - asI32 s.right)
    return ⟨edge, y, asI32 s.right, h⟩
  | .top => do
    let (x, w) ← span s.topStartX s.topEndX
    return ⟨x, 0, w, asI32 s.top⟩
  | .bottom => do
    let (x, w) ← span s.bottomStartX s.bottomEndX
    let edge ← i32 (screen.height - asI32 s.bottom)
    return ⟨x, edge, w, asI32 s.bottom⟩

def reaches (monitor : Rect) (screen : Size) (s : Strut) (side : Side) : Option Bool := do
  monitor.intersects (← s.band screen side)

/-- The area without what a strut reserves at a side. -/
def Edges.cut (area : Edges) (screen : Size) (s : Strut) : Side → Edges
  | .left => { area with left := max area.left (asI32 s.left) }
  | .right => { area with right := min area.right (screen.width - asI32 s.right) }
  | .top => { area with top := max area.top (asI32 s.top) }
  | .bottom => { area with bottom := min area.bottom (screen.height - asI32 s.bottom) }

def clipSide (monitor : Rect) (screen : Size) (area : Edges) (reserved : Strut × Side) :
    Option Edges := do
  if ← reaches monitor screen reserved.1 reserved.2 then
    return area.cut screen reserved.1 reserved.2
  else return area

/-- The four sides of a strut, in the order of the loop's body. -/
def Strut.sides (s : Strut) : List (Strut × Side) :=
  [(s, .left), (s, .right), (s, .top), (s, .bottom)]

/-- `work_area`; none where its arithmetic overflows. -/
def workArea (monitor : Rect) (screen : Size) (struts : List Strut) : Option Rect := do
  let right ← monitor.right
  let bottom ← monitor.bottom
  let area ← (struts.flatMap Strut.sides).foldlM (clipSide monitor screen)
    ⟨monitor.x, monitor.y, right, bottom⟩
  let width ← i32 (area.right - area.left)
  let height ← i32 (area.bottom - area.top)
  return ⟨area.left, area.top, max width 0, max height 0⟩

/-! ## The order of the struts -/

theorem Edges.cut_comm (area : Edges) (screen : Size) (s t : Strut) (side side' : Side) :
    (area.cut screen s side).cut screen t side' = (area.cut screen t side').cut screen s side := by
  cases side <;> cases side' <;> simp [Edges.cut, max_right_comm, min_right_comm]

theorem clipSide_eq (monitor : Rect) (screen : Size) (area : Edges) (p : Strut × Side) :
    clipSide monitor screen area p =
      (reaches monitor screen p.1 p.2).map fun r =>
        if r then area.cut screen p.1 p.2 else area := by
  unfold clipSide
  cases reaches monitor screen p.1 p.2 with
  | none => rfl
  | some r => cases r <;> simp

theorem clipSide_comm (monitor : Rect) (screen : Size) (area : Edges) (p q : Strut × Side) :
    (clipSide monitor screen area p >>= fun area => clipSide monitor screen area q) =
      (clipSide monitor screen area q >>= fun area => clipSide monitor screen area p) := by
  simp only [clipSide_eq]
  generalize reaches monitor screen p.1 p.2 = rp
  generalize reaches monitor screen q.1 q.2 = rq
  have hcut := Edges.cut_comm area screen p.1 q.1 p.2 q.2
  cases rp with
  | none => cases rq <;> simp
  | some p' =>
    cases rq with
    | none => simp
    | some q' => cases p' <;> cases q' <;> simp [hcut]

/-- A step that does not overflow leaves the others as they were. -/
theorem foldlM_perm (monitor : Rect) (screen : Size) {ps qs : List (Strut × Side)}
    (h : ps.Perm qs) (area : Edges) :
    ps.foldlM (clipSide monitor screen) area = qs.foldlM (clipSide monitor screen) area := by
  induction h generalizing area with
  | nil => rfl
  | cons p _ ih =>
    rw [List.foldlM_cons, List.foldlM_cons]
    congr 1
    funext area
    exact ih area
  | swap p q ps =>
    have hcomm := clipSide_comm monitor screen area q p
    simp only [List.foldlM_cons, ← bind_assoc, hcomm]
  | trans _ _ ih₁ ih₂ => exact (ih₁ area).trans (ih₂ area)

theorem workArea_perm (monitor : Rect) (screen : Size) {struts struts' : List Strut}
    (h : struts.Perm struts') :
    workArea monitor screen struts = workArea monitor screen struts' := by
  unfold workArea
  simp only [foldlM_perm monitor screen (h.flatMap_right Strut.sides)]

/-! ## What the loop keeps -/

/-- An area between the monitor's sides. -/
structure Edges.Within (area : Edges) (monitor : Rect) : Prop where
  left : monitor.x ≤ area.left
  top : monitor.y ≤ area.top
  right : area.right ≤ monitor.x + monitor.width
  bottom : area.bottom ≤ monitor.y + monitor.height

/-- The area's near sides are within a distance. -/
def Edges.StartsBy (area : Edges) (far : ℤ × ℤ) : Prop := area.left ≤ far.1 ∧ area.top ≤ far.2

/-- A side of a strut keeps the area's near sides within a distance. -/
def Strut.StaysBy (s : Strut) (far : ℤ × ℤ) : Side → Prop
  | .left => asI32 s.left ≤ far.1
  | .top => asI32 s.top ≤ far.2
  | .right => True
  | .bottom => True

theorem Edges.Within.cut {area : Edges} {monitor : Rect} (h : area.Within monitor) (screen : Size)
    (s : Strut) (side : Side) : (area.cut screen s side).Within monitor := by
  cases side with
  | left => exact { h with left := h.left.trans (le_max_left _ _) }
  | right => exact { h with right := (min_le_left _ _).trans h.right }
  | top => exact { h with top := h.top.trans (le_max_left _ _) }
  | bottom => exact { h with bottom := (min_le_left _ _).trans h.bottom }

theorem Edges.startsBy_cut (area : Edges) (screen : Size) (s : Strut) (side : Side)
    (far : ℤ × ℤ) :
    (area.cut screen s side).StartsBy far ↔ area.StartsBy far ∧ s.StaysBy far side := by
  cases side <;> simp only [Edges.cut, Edges.StartsBy, Strut.StaysBy, max_le_iff] <;> tauto

/-- A step either leaves the area or takes off it what its strut reserves. -/
theorem clipSide_cases {monitor : Rect} {screen : Size} {area area' : Edges} {p : Strut × Side}
    (h : clipSide monitor screen area p = some area') :
    (reaches monitor screen p.1 p.2 = some true ∧ area' = area.cut screen p.1 p.2) ∨
      (reaches monitor screen p.1 p.2 = some false ∧ area' = area) := by
  rw [clipSide_eq] at h
  cases hr : reaches monitor screen p.1 p.2 with
  | none => simp [hr] at h
  | some r => cases r <;> simp_all

theorem run_within {monitor : Rect} {screen : Size} {ps : List (Strut × Side)} {area area' : Edges}
    (h : ps.foldlM (clipSide monitor screen) area = some area') (hw : area.Within monitor) :
    area'.Within monitor := by
  induction ps generalizing area with
  | nil => exact Option.some.inj h ▸ hw
  | cons p ps ih =>
    rw [List.foldlM_cons, Option.bind_eq_bind, Option.bind_eq_some_iff] at h
    obtain ⟨next, hstep, hrun⟩ := h
    rcases clipSide_cases hstep with ⟨-, rfl⟩ | ⟨-, rfl⟩
    · exact ih hrun (hw.cut screen p.1 p.2)
    · exact ih hrun hw

/-- Only the struts that reach the monitor move the area's near sides. -/
theorem run_startsBy {monitor : Rect} {screen : Size} {ps : List (Strut × Side)}
    {area area' : Edges} (h : ps.foldlM (clipSide monitor screen) area = some area')
    (far : ℤ × ℤ) :
    area'.StartsBy far ↔ area.StartsBy far ∧
      ∀ p ∈ ps, reaches monitor screen p.1 p.2 = some true → p.1.StaysBy far p.2 := by
  induction ps generalizing area with
  | nil =>
    obtain rfl : area = area' := Option.some.inj h
    simp
  | cons p ps ih =>
    rw [List.foldlM_cons, Option.bind_eq_bind, Option.bind_eq_some_iff] at h
    obtain ⟨next, hstep, hrun⟩ := h
    rw [ih hrun, List.forall_mem_cons]
    rcases clipSide_cases hstep with ⟨hr, rfl⟩ | ⟨hr, rfl⟩
    · rw [Edges.startsBy_cut]
      simp only [hr, forall_const]
      tauto
    · simp [hr]

/-! ## Arithmetic that does not overflow -/

/-- The side of a strut's rectangle that lies across its edge. -/
def Strut.thickness (s : Strut) : Side → UInt32
  | .left => s.left
  | .right => s.right
  | .top => s.top
  | .bottom => s.bottom

def Strut.start (s : Strut) : Side → UInt32
  | .left => s.leftStartY
  | .right => s.rightStartY
  | .top => s.topStartX
  | .bottom => s.bottomStartX

def Strut.stop (s : Strut) : Side → UInt32
  | .left => s.leftEndY
  | .right => s.rightEndY
  | .top => s.topEndX
  | .bottom => s.bottomEndX

/-- Cardinals that the arithmetic takes: half the range across an edge, all but its last along
it. -/
structure Strut.Fits (s : Strut) : Prop where
  thickness : ∀ side, (s.thickness side).toNat ≤ 1073741824
  start : ∀ side, (s.start side).toNat ≤ 2147483647
  stop : ∀ side, (s.stop side).toNat < 2147483647

/-- A monitor inside its screen. -/
structure Rect.OnScreen (monitor : Rect) (screen : Size) : Prop where
  x : 0 ≤ monitor.x
  y : 0 ≤ monitor.y
  width : 0 ≤ monitor.width
  height : 0 ≤ monitor.height
  right : monitor.x + monitor.width ≤ screen.width
  bottom : monitor.y + monitor.height ≤ screen.height
  screenWidth : screen.width ≤ I32_MAX
  screenHeight : screen.height ≤ I32_MAX

/-- `Strut.band` in unbounded integers. -/
def Strut.reserved (s : Strut) (screen : Size) (side : Side) : Rect :=
  let start : ℤ := (s.start side).toNat
  let length : ℤ := (s.stop side).toNat - start + 1
  let thickness : ℤ := (s.thickness side).toNat
  match side with
  | .left => ⟨0, start, thickness, length⟩
  | .right => ⟨screen.width - thickness, start, thickness, length⟩
  | .top => ⟨start, 0, length, thickness⟩
  | .bottom => ⟨start, screen.height - thickness, length, thickness⟩

def Rect.Meets (r other : Rect) : Prop :=
  r.x < other.x + other.width ∧ other.x < r.x + r.width ∧
    r.y < other.y + other.height ∧ other.y < r.y + r.height

instance (r other : Rect) : Decidable (r.Meets other) := by
  unfold Rect.Meets
  infer_instance

theorem asI32_of_fits {u : UInt32} (h : u.toNat ≤ 2147483647) : asI32 u = u.toNat :=
  if_pos (by omega)

theorem span_of_fits {start stop : UInt32} (hstart : start.toNat ≤ 2147483647)
    (hstop : stop.toNat < 2147483647) :
    span start stop = some ((start.toNat : ℤ), (stop.toNat : ℤ) - start.toNat + 1) := by
  unfold span
  rw [asI32_of_fits hstart, asI32_of_fits hstop.le,
    i32_of_fits (by unfold I32_MIN; omega) (by unfold I32_MAX; omega)]
  simp only [Option.bind_eq_bind, Option.bind_some]
  rw [i32_of_fits (by unfold I32_MIN; omega) (by unfold I32_MAX; omega)]
  rfl

theorem band_of_fits {s : Strut} (hs : s.Fits) {screen : Size}
    (hwidth : 0 ≤ screen.width ∧ screen.width ≤ I32_MAX)
    (hheight : 0 ≤ screen.height ∧ screen.height ≤ I32_MAX) (side : Side) :
    s.band screen side = some (s.reserved screen side) := by
  have hthick := hs.thickness side
  have hspan := span_of_fits (hs.start side) (hs.stop side)
  have hcast := asI32_of_fits (hthick.trans (by omega))
  unfold I32_MAX at hwidth hheight
  cases side <;>
    simp only [Strut.thickness, Strut.start, Strut.stop] at hthick hspan hcast <;>
    simp only [Strut.band, Strut.reserved, Strut.thickness, Strut.start, Strut.stop, hspan, hcast,
      Option.bind_eq_bind, Option.bind_some, Option.pure_def]
  · rw [i32_of_fits (by unfold I32_MIN; omega) (by unfold I32_MAX; omega)]
    rfl
  · rw [i32_of_fits (by unfold I32_MIN; omega) (by unfold I32_MAX; omega)]
    rfl

theorem intersects_of_fits {r other : Rect} (hright : other.right = some (other.x + other.width))
    (hbottom : other.bottom = some (other.y + other.height))
    (hright' : r.right = some (r.x + r.width)) (hbottom' : r.bottom = some (r.y + r.height)) :
    r.intersects other = some (decide (r.Meets other)) := by
  unfold Rect.intersects Rect.Meets
  rw [hright, hbottom, hright', hbottom']
  simp only [Option.bind_eq_bind, Option.bind_some, Option.pure_def]
  split_ifs <;> simp [*]

theorem reaches_of_fits {monitor : Rect} {screen : Size} (hm : monitor.OnScreen screen) {s : Strut}
    (hs : s.Fits) (side : Side) :
    reaches monitor screen s side = some (decide (monitor.Meets (s.reserved screen side))) := by
  obtain ⟨hx, hy, hw, hh, hright, hbottom, hsw, hsh⟩ := hm
  unfold reaches
  rw [band_of_fits hs ⟨by omega, hsw⟩ ⟨by omega, hsh⟩, Option.bind_eq_bind, Option.bind_some]
  have hthick := hs.thickness side
  have hstart := hs.start side
  have hstop := hs.stop side
  unfold I32_MAX at hsw hsh
  apply intersects_of_fits
  · refine i32_of_fits ?_ ?_ <;> cases side <;>
      simp only [Strut.reserved, I32_MIN, I32_MAX] <;> omega
  · refine i32_of_fits ?_ ?_ <;> cases side <;>
      simp only [Strut.reserved, I32_MIN, I32_MAX] <;> omega
  · exact i32_of_fits (by unfold I32_MIN; omega) (by unfold I32_MAX; omega)
  · exact i32_of_fits (by unfold I32_MIN; omega) (by unfold I32_MAX; omega)

/-- How far struts that fit push an area's sides. -/
structure Edges.Moderate (area : Edges) (monitor : Rect) : Prop where
  left : area.left ≤ max monitor.x 1073741824
  top : area.top ≤ max monitor.y 1073741824
  right : monitor.x - 1073741824 ≤ area.right
  bottom : monitor.y - 1073741824 ≤ area.bottom

theorem Edges.Moderate.cut {area : Edges} {monitor : Rect} (h : area.Moderate monitor)
    {screen : Size} (hm : monitor.OnScreen screen) {s : Strut} (hs : s.Fits) (side : Side) :
    (area.cut screen s side).Moderate monitor := by
  have hthick := hs.thickness side
  have hcast := asI32_of_fits (hthick.trans (by omega))
  have hright := hm.right
  have hbottom := hm.bottom
  have hwidth := hm.width
  have hheight := hm.height
  have hleft' := h.left
  have htop' := h.top
  have hright' := h.right
  have hbottom' := h.bottom
  cases side <;> simp only [Strut.thickness] at hthick hcast <;> constructor <;>
    simp only [Edges.cut, hcast] <;> omega

theorem clipSide_fits {monitor : Rect} {screen : Size} (hm : monitor.OnScreen screen)
    {p : Strut × Side} (hp : p.1.Fits) {area : Edges} (harea : area.Moderate monitor) :
    ∃ area', clipSide monitor screen area p = some area' ∧ area'.Moderate monitor := by
  rw [clipSide_eq, reaches_of_fits hm hp]
  refine ⟨_, rfl, ?_⟩
  dsimp only
  split_ifs
  · exact harea.cut hm hp p.2
  · exact harea

theorem run_fits {monitor : Rect} {screen : Size} (hm : monitor.OnScreen screen)
    {ps : List (Strut × Side)} (hps : ∀ p ∈ ps, p.1.Fits) {area : Edges}
    (harea : area.Moderate monitor) :
    ∃ area', ps.foldlM (clipSide monitor screen) area = some area' ∧ area'.Moderate monitor := by
  induction ps generalizing area with
  | nil => exact ⟨area, rfl, harea⟩
  | cons p ps ih =>
    obtain ⟨hp, hps⟩ := List.forall_mem_cons.mp hps
    obtain ⟨next, hstep, hnext⟩ := clipSide_fits hm hp harea
    obtain ⟨area', hrun, harea'⟩ := ih hps hnext
    exact ⟨area', by rw [List.foldlM_cons, hstep]; exact hrun, harea'⟩

/-! ## The rectangle the loop leaves -/

/-- The monitor's sides, where the loop starts. -/
def Rect.edges (monitor : Rect) : Edges :=
  ⟨monitor.x, monitor.y, monitor.x + monitor.width, monitor.y + monitor.height⟩

def Edges.rect (area : Edges) : Rect :=
  ⟨area.left, area.top, max (area.right - area.left) 0, max (area.bottom - area.top) 0⟩

/-- A rectangle that starts no earlier than the monitor and, unless empty, ends no later. -/
structure Rect.OnMonitor (r monitor : Rect) : Prop where
  x : monitor.x ≤ r.x
  y : monitor.y ≤ r.y
  width : 0 ≤ r.width
  height : 0 ≤ r.height
  right : 0 < r.width → r.x + r.width ≤ monitor.x + monitor.width
  bottom : 0 < r.height → r.y + r.height ≤ monitor.y + monitor.height

/-- The origin of a rectangle is on the monitor or at its far sides. -/
def Rect.StartsOn (r monitor : Rect) : Prop :=
  r.x ≤ monitor.x + monitor.width ∧ r.y ≤ monitor.y + monitor.height

theorem Rect.OnScreen.right_eq {monitor : Rect} {screen : Size} (hm : monitor.OnScreen screen) :
    monitor.right = some (monitor.x + monitor.width) := by
  obtain ⟨hx, hy, hw, hh, hright, hbottom, hsw, hsh⟩ := hm
  exact i32_of_fits (by unfold I32_MIN; omega) (by omega)

theorem Rect.OnScreen.bottom_eq {monitor : Rect} {screen : Size} (hm : monitor.OnScreen screen) :
    monitor.bottom = some (monitor.y + monitor.height) := by
  obtain ⟨hx, hy, hw, hh, hright, hbottom, hsw, hsh⟩ := hm
  exact i32_of_fits (by unfold I32_MIN; omega) (by omega)

theorem Rect.edges_within (monitor : Rect) : monitor.edges.Within monitor :=
  ⟨le_rfl, le_rfl, le_rfl, le_rfl⟩

theorem Rect.OnScreen.edges_moderate {monitor : Rect} {screen : Size}
    (hm : monitor.OnScreen screen) : monitor.edges.Moderate monitor := by
  have hwidth := hm.width
  have hheight := hm.height
  constructor <;> simp only [Rect.edges] <;> omega

theorem workArea_eq {monitor : Rect} {screen : Size} (hm : monitor.OnScreen screen)
    (struts : List Strut) :
    workArea monitor screen struts =
      ((struts.flatMap Strut.sides).foldlM (clipSide monitor screen) monitor.edges).bind
        fun area => (i32 (area.right - area.left)).bind fun _ =>
          (i32 (area.bottom - area.top)).map fun _ => area.rect := by
  unfold workArea
  rw [hm.right_eq, hm.bottom_eq]
  simp only [Option.bind_eq_bind, Option.bind_some]
  congr 1
  funext area
  unfold i32
  split_ifs <;> rfl

theorem workArea_cases {monitor : Rect} {screen : Size} (hm : monitor.OnScreen screen)
    {struts : List Strut} {r : Rect} (h : workArea monitor screen struts = some r) :
    ∃ area, (struts.flatMap Strut.sides).foldlM (clipSide monitor screen) monitor.edges =
      some area ∧ r = area.rect := by
  rw [workArea_eq hm, Option.bind_eq_some_iff] at h
  obtain ⟨area, hrun, harea⟩ := h
  refine ⟨area, hrun, ?_⟩
  rw [Option.bind_eq_some_iff] at harea
  obtain ⟨-, -, hrect⟩ := harea
  rw [Option.map_eq_some_iff] at hrect
  obtain ⟨-, -, hrect⟩ := hrect
  exact hrect.symm

theorem Edges.Within.rect {area : Edges} {monitor : Rect} (h : area.Within monitor) :
    area.rect.OnMonitor monitor where
  x := h.left
  y := h.top
  width := le_max_right _ _
  height := le_max_right _ _
  right := by
    have hright := h.right
    simp only [Edges.rect]
    omega
  bottom := by
    have hbottom := h.bottom
    simp only [Edges.rect]
    omega

theorem workArea_onMonitor {monitor : Rect} {screen : Size} (hm : monitor.OnScreen screen)
    {struts : List Strut} {r : Rect} (h : workArea monitor screen struts = some r) :
    r.OnMonitor monitor := by
  obtain ⟨area, hrun, rfl⟩ := workArea_cases hm h
  exact (run_within hrun monitor.edges_within).rect

theorem workArea_startsOn {monitor : Rect} {screen : Size} (hm : monitor.OnScreen screen)
    {struts : List Strut} {r : Rect} (h : workArea monitor screen struts = some r) :
    r.StartsOn monitor ↔ ∀ s ∈ struts, ∀ side, reaches monitor screen s side = some true →
      s.StaysBy (monitor.x + monitor.width, monitor.y + monitor.height) side := by
  obtain ⟨area, hrun, rfl⟩ := workArea_cases hm h
  have hstart : monitor.edges.StartsBy
      (monitor.x + monitor.width, monitor.y + monitor.height) := by
    have hwidth := hm.width
    have hheight := hm.height
    constructor <;> simp only [Rect.edges] <;> omega
  have hrect : area.rect.StartsOn monitor ↔
      area.StartsBy (monitor.x + monitor.width, monitor.y + monitor.height) := Iff.rfl
  rw [hrect, run_startsBy hrun]
  constructor
  · intro h s hs side hreach
    refine h.2 (s, side) (List.mem_flatMap.mpr ⟨s, hs, ?_⟩) hreach
    cases side <;> simp [Strut.sides]
  · intro h
    refine ⟨hstart, fun p hp hreach => ?_⟩
    obtain ⟨s, hs, hside⟩ := List.mem_flatMap.mp hp
    have hps : p.1 = s := by
      simp only [Strut.sides, List.mem_cons, List.not_mem_nil, or_false] at hside
      rcases hside with rfl | rfl | rfl | rfl <;> rfl
    exact h p.1 (hps ▸ hs) p.2 hreach

theorem workArea_fits {monitor : Rect} {screen : Size} (hm : monitor.OnScreen screen)
    {struts : List Strut} (hs : ∀ s ∈ struts, s.Fits) :
    ∃ r, workArea monitor screen struts = some r := by
  have hps : ∀ p ∈ struts.flatMap Strut.sides, p.1.Fits := by
    intro p hp
    obtain ⟨s, hmem, hside⟩ := List.mem_flatMap.mp hp
    simp only [Strut.sides, List.mem_cons, List.not_mem_nil, or_false] at hside
    rcases hside with rfl | rfl | rfl | rfl <;> exact hs s hmem
  obtain ⟨area, hrun, harea⟩ := run_fits hm hps hm.edges_moderate
  have hin := run_within hrun monitor.edges_within
  obtain ⟨hx, hy, hw, hh, hright, hbottom, hsw, hsh⟩ := hm
  obtain ⟨hl, ht, hr, hb⟩ := harea
  obtain ⟨hil, hit, hir, hib⟩ := hin
  refine ⟨area.rect, ?_⟩
  rw [workArea_eq ⟨hx, hy, hw, hh, hright, hbottom, hsw, hsh⟩, hrun, Option.bind_some,
    i32_of_fits (by unfold I32_MIN; omega) (by omega), Option.bind_some,
    i32_of_fits (by unfold I32_MIN; omega) (by omega)]
  rfl

/-! ## Struts of other monitors -/

/-- A strut for a panel on a monitor, along one of the monitor's edges. -/
structure Strut.PanelOf (s : Strut) (other : Rect) (screen : Size) (side : Side) : Prop where
  fits : s.Fits
  alone : ∀ side', side' ≠ side → s.thickness side' = 0
  along : match side with
    | .left | .right =>
      other.y ≤ (s.start side).toNat ∧ ((s.stop side).toNat : ℤ) < other.y + other.height
    | .top | .bottom =>
      other.x ≤ (s.start side).toNat ∧ ((s.stop side).toNat : ℤ) < other.x + other.width
  across : match side with
    | .left => ((s.thickness side).toNat : ℤ) ≤ other.x + other.width
    | .right => other.x ≤ screen.width - (s.thickness side).toNat
    | .top => ((s.thickness side).toNat : ℤ) ≤ other.y + other.height
    | .bottom => other.y ≤ screen.height - (s.thickness side).toNat

/-- The monitor lies between the screen's edge and another monitor. -/
def Rect.Between (monitor other : Rect) : Side → Prop
  | .left => monitor.x + monitor.width ≤ other.x
  | .right => other.x + other.width ≤ monitor.x
  | .top => monitor.y + monitor.height ≤ other.y
  | .bottom => other.y + other.height ≤ monitor.y

theorem not_meets_of_thickness {monitor : Rect} {screen : Size} (hm : monitor.OnScreen screen)
    {s : Strut} {side : Side} (h : s.thickness side = 0) :
    ¬monitor.Meets (s.reserved screen side) := by
  obtain ⟨hx, hy, hw, hh, hright, hbottom, -, -⟩ := hm
  have hthick : (s.thickness side).toNat = 0 := by rw [h]; rfl
  cases side <;> simp only [Strut.reserved, Rect.Meets, hthick] <;> omega

theorem Strut.PanelOf.not_meets {monitor other : Rect} {screen : Size}
    (hm : monitor.OnScreen screen) {s : Strut} {side : Side} (hs : s.PanelOf other screen side)
    (hapart : ¬monitor.Meets other) (houter : ¬monitor.Between other side) (side' : Side) :
    ¬monitor.Meets (s.reserved screen side') := by
  by_cases hside : side' = side
  · subst hside
    have halong := hs.along
    have hacross := hs.across
    cases side' <;>
      simp only [Strut.reserved, Rect.Meets, Rect.Between] at hapart houter halong hacross ⊢ <;>
      omega
  · exact not_meets_of_thickness hm (hs.alone side' hside)

theorem workArea_cons_of_not_meets {monitor : Rect} {screen : Size}
    (hm : monitor.OnScreen screen) {s : Strut} (hs : s.Fits)
    (h : ∀ side, ¬monitor.Meets (s.reserved screen side)) (struts : List Strut) :
    workArea monitor screen (s :: struts) = workArea monitor screen struts := by
  have hclip : ∀ side area, clipSide monitor screen area (s, side) = some area := by
    intro side area
    rw [clipSide_eq, reaches_of_fits hm hs, decide_eq_false (h side)]
    simp
  rw [workArea_eq hm, workArea_eq hm, List.flatMap_cons, List.foldlM_append]
  simp only [Strut.sides, List.foldlM_cons, List.foldlM_nil, hclip, Option.bind_eq_bind,
    Option.bind_some, Option.pure_def]

end Platform

end Myna
