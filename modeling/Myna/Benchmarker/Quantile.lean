import Mathlib.Algebra.Order.Floor.Ring
import Mathlib.Data.List.Induction
import Mathlib.Data.Rat.Floor
import Myna.Lib.Weighted

/-!
# Myna — bootstrapped percentiles (`myna.benchmarker`)

`latency_percentile` sorts the latencies of a list of clips. The bootstrap's `_quantile` sorts them
once and never builds the list that was drawn: it reads the rank off running totals of the draw
counts.

* **`rows_perm`** — the rows, each as often as its clip was drawn, are the drawn latencies;
* **`quantile_drawn`** — both read the same value.
-/

namespace Myna

namespace Benchmarker

/-! ## `_stats.py` -/

/-- One clip's measured repeats, as far as the percentiles read them. -/
structure ClipSample (α : Type*) where
  latencies : List α := []

def SAMPLE_FLOORS : List (ℚ × ℕ) := [(99 / 100, 300), (95 / 100, 60)]

/-- Fewest samples a `q` percentile may be read from. -/
def sampleFloor (q : ℚ) : ℕ :=
  match SAMPLE_FLOORS.find? fun entry => entry.1 ≤ q with
  | some (_, floor) => floor
  | none => 1

theorem sampleFloor_pos (q : ℚ) : 0 < sampleFloor q := by
  unfold sampleFloor SAMPLE_FLOORS
  split
  · next entry floor hfind =>
    have hmem := List.mem_of_find?_eq_some hfind
    simp at hmem
    omega
  · exact Nat.one_pos

/-- The list in which each clip appears as often as it was drawn. -/
def drawn {β : Type*} (clips : List (ClipSample β)) (counts : List ℕ) : List (ClipSample β) :=
  Weighted.expand (clips.zip counts)

/-- Clips that were not timed have nothing to pool. -/
theorem flatMap_timed {β : Type*} (clips : List (ClipSample β)) :
    (clips.filter fun c => c.latencies ≠ []).flatMap ClipSample.latencies =
      clips.flatMap ClipSample.latencies := by
  induction clips with
  | nil => rfl
  | cons c clips ih =>
    by_cases hc : c.latencies = []
    · simpa [hc] using ih
    · simpa [hc] using ih

/-- The weighted count of timed clips is that of the drawn list. -/
theorem sum_timed {β : Type*} (clips : List (ClipSample β)) (counts : List ℕ) :
    (List.zipWith (· * ·) counts ((clips.map ClipSample.latencies).map fun lat =>
        if lat = [] then 0 else 1)).sum =
      ((drawn clips counts).filter fun c => c.latencies ≠ []).length := by
  induction clips generalizing counts with
  | nil => cases counts <;> rfl
  | cons c clips ih =>
    cases counts with
    | nil => rfl
    | cons n counts =>
      have hdrawn : drawn (c :: clips) (n :: counts) = List.replicate n c ++ drawn clips counts :=
        rfl
      rw [hdrawn, List.filter_append, List.length_append, ← ih counts, List.map_cons, List.map_cons,
        List.zipWith_cons_cons, List.sum_cons]
      congr 1
      by_cases hc : c.latencies = []
      · simp [hc]
      · simp [hc]

/-! ## Owners -/

/-- A latency's owner stands where the latency does. -/
theorem zip_owner {β : Type*} (latencies : List (List β)) (first : ℕ) :
    latencies.flatten.zip ((latencies.zipIdx first).flatMap fun lat => lat.1.map fun _ => lat.2) =
      (latencies.zipIdx first).flatMap fun lat => lat.1.map (·, lat.2) := by
  induction latencies generalizing first with
  | nil => rfl
  | cons lat latencies ih =>
    have hfirst : lat.zip (lat.map fun _ => first) = lat.map (·, first) := by
      rw [List.zip_map_right]
      exact List.ext_getElem (by simp) (by simp)
    rw [List.zipIdx_cons, List.flatten_cons, List.flatMap_cons, List.flatMap_cons,
      List.zip_append (by simp), ih, hfirst]

theorem map_fst_rows {β : Type*} (latencies : List (List β)) (first : ℕ) :
    ((latencies.zipIdx first).flatMap fun lat => lat.1.map (·, lat.2)).map Prod.fst =
      latencies.flatten := by
  induction latencies generalizing first with
  | nil => rfl
  | cons lat latencies ih =>
    rw [List.zipIdx_cons, List.flatMap_cons, List.map_append, ih, List.flatten_cons, List.map_map]
    congr 1
    exact List.map_id _

/-- All indices in order give the list back. -/
theorem filterMap_range {β : Type*} (l : List β) : (List.range l.length).filterMap (l[·]?) = l := by
  induction l using List.reverseRecOn with
  | nil => rfl
  | append_singleton l b ih =>
    have hfront : (List.range l.length).filterMap ((l ++ [b])[·]?) =
        (List.range l.length).filterMap (l[·]?) := by
      apply List.filterMap_congr
      intro k hk
      exact List.getElem?_append_left (List.mem_range.mp hk)
    rw [List.length_append, List.length_singleton, List.range_succ, List.filterMap_append, hfront,
      ih]
    simp

/-- The rows, with how often their clips were drawn. -/
theorem weighed {β : Type*} {latencies : List (List β)} {counts : List ℕ}
    (hlen : counts.length = latencies.length) :
    (latencies.zipIdx.flatMap fun lat => lat.1.map (·, lat.2)).map
        (fun row => (row.1, counts.getD row.2 0)) =
      (latencies.zip counts).flatMap fun row => row.1.map (·, row.2) := by
  have hzip : latencies.zipIdx.map (fun lat => (lat.1, counts.getD lat.2 0)) =
      latencies.zip counts := by
    apply List.ext_getElem
    · simp [hlen]
    · intro k hk hk'
      have hk : k < counts.length := by
        simp at hk'
        omega
      simp [hk]
  rw [← hzip, List.map_flatMap, List.flatMap_map]
  simp only [List.map_map, Function.comp_def]

section

variable {α : Type*} [LinearOrder α] (mul : ℚ → ℕ → ℚ)

/-- The sorted value at rank `int(q * n)`, clamped to the last one; `mul` multiplies as floats
do. -/
def nearestRank (values : List α) (q : ℚ) : Option α :=
  if values = [] then none
  else
    let s := values.insertionSort (· ≤ ·)
    s[min (s.length - 1) ⌊mul q s.length⌋.toNat]?

/-- `nearest_rank` of every repeat's latency, or none when fewer clips than the floor for `q` were
timed. -/
def latencyPercentile (clips : List (ClipSample α)) (q : ℚ) : Option α :=
  let timed := clips.filter fun c => c.latencies ≠ []
  if timed.length < sampleFloor q then none
  else nearestRank mul (timed.flatMap ClipSample.latencies) q

/-! ## `_bootstrap.py` -/

/-- `np.argsort`, of the values at hand: indices that put them in order, ties in any. -/
structure ArgSorts (argsort : List α → List ℕ) (values : List α) : Prop where
  perm : (argsort values).Perm (List.range values.length)
  sorted : ((argsort values).filterMap (values[·]?)).Pairwise (· ≤ ·)

/-- The latencies of all clips with their owners, in order of the latencies. -/
def ordered (argsort : List α → List ℕ) (latencies : List (List α)) : List (α × ℕ) :=
  let owner := latencies.zipIdx.flatMap fun lat => lat.1.map fun _ => lat.2
  let values := latencies.flatten
  (argsort values).filterMap ((values.zip owner)[·]?)

/-- The statistic of `_quantile` at one vector of draw counts; none is its NaN. -/
def quantile (argsort : List α → List ℕ) (latencies : List (List α)) (q : ℚ) (counts : List ℕ) :
    Option α :=
  let timed := latencies.map fun lat => if lat = [] then 0 else 1
  let rows := ordered argsort latencies
  let floor := sampleFloor q
  if rows = [] then none
  else
    let cumulative := Weighted.cumulative 0 (rows.map fun row => counts.getD row.2 0)
    let total := (cumulative.getLast?).getD 0
    let rank := ⌊mul q total⌋
    -- `argmax` of no true value is 0
    let picked := (rows.map Prod.fst)[(cumulative.findIdx? fun n : ℕ => rank < n).getD 0]?
    if floor ≤ (List.zipWith (· * ·) counts timed).sum then picked else none

/-! ## The rows are the latencies -/

variable {mul} {argsort : List α → List ℕ} {latencies : List (List α)} {counts : List ℕ}

theorem ordered_perm (h : ArgSorts argsort latencies.flatten) :
    (ordered argsort latencies).Perm
      (latencies.zipIdx.flatMap fun lat => lat.1.map (·, lat.2)) := by
  have hperm := h.perm.filterMap
    ((latencies.zipIdx.flatMap fun lat => lat.1.map (·, lat.2))[·]?)
  unfold ordered
  dsimp only
  rw [zip_owner]
  have hlength : latencies.flatten.length =
      (latencies.zipIdx.flatMap fun lat => lat.1.map (·, lat.2)).length := by
    rw [← map_fst_rows latencies 0, List.length_map]
  rw [hlength, filterMap_range] at hperm
  exact hperm

theorem ordered_fst (h : ArgSorts argsort latencies.flatten) :
    ((ordered argsort latencies).map Prod.fst).Pairwise (· ≤ ·) := by
  have hvalue : ∀ k : ℕ,
      (latencies.zipIdx.flatMap fun lat => lat.1.map (·, lat.2))[k]?.map Prod.fst =
        latencies.flatten[k]? := by
    intro k
    rw [← List.getElem?_map, map_fst_rows]
  unfold ordered
  dsimp only
  rw [zip_owner, List.map_filterMap]
  simp only [hvalue]
  exact h.sorted

/-- Each row as often as its clip was drawn: the drawn latencies. -/
theorem rows_perm {clips : List (ClipSample α)}
    (h : ArgSorts argsort (clips.map ClipSample.latencies).flatten)
    (hlen : counts.length = clips.length) :
    (Weighted.expand ((ordered argsort (clips.map ClipSample.latencies)).map
        fun row => (row.1, counts.getD row.2 0))).Perm
      ((drawn clips counts).flatMap ClipSample.latencies) := by
  have hlen : counts.length = (clips.map ClipSample.latencies).length := by
    rw [List.length_map, hlen]
  have hdrawn : (Weighted.expand ((clips.map ClipSample.latencies).zip counts)).flatten =
      (drawn clips counts).flatMap ClipSample.latencies := by
    unfold drawn
    rw [List.flatMap_def, Weighted.map_expand, List.zip_map_left]
  have hperm := Weighted.expand_perm ((ordered_perm h).map fun row => (row.1, counts.getD row.2 0))
  rw [weighed hlen] at hperm
  rw [← hdrawn]
  exact hperm.trans (Weighted.expand_flatMap_perm _)

/-! ## Both forms agree -/

/-- A product of a quantile and a count, however it is rounded: not negative, and below the count
(as it is of floats for counts to 2^53). -/
def Multiplies (mul : ℚ → ℕ → ℚ) : Prop :=
  ∀ q n, 0 < q → q < 1 → 0 < n → 0 ≤ mul q n ∧ mul q n < n

/-- The value at a rank of the pooled list, by the running totals of its rows. -/
theorem nearestRank_rows (hmul : Multiplies mul) {q : ℚ} (hpos : 0 < q) (hlt : q < 1)
    {rows : List (α × ℕ)} {pooled : List α} (hperm : (Weighted.expand rows).Perm pooled)
    (hfst : (rows.map Prod.fst).Pairwise (· ≤ ·)) (hne : pooled ≠ []) :
    nearestRank mul pooled q =
      let cumulative := Weighted.cumulative 0 (rows.map Prod.snd)
      let rank := ⌊mul q ((cumulative.getLast?).getD 0)⌋
      (rows.map Prod.fst)[(cumulative.findIdx? fun n : ℕ => rank < n).getD 0]? := by
  have hsort : pooled.insertionSort (· ≤ ·) = Weighted.expand rows :=
    ((List.perm_insertionSort (· ≤ ·) pooled).trans hperm.symm).eq_of_pairwise'
      (List.pairwise_insertionSort (· ≤ ·) pooled) (Weighted.pairwise_expand hfst)
  have hlength : pooled.length = (rows.map Prod.snd).sum := by
    rw [← hperm.length_eq, Weighted.length_expand]
  have hcount := List.length_pos_iff.mpr hne
  have htotal : (Weighted.cumulative 0 (rows.map Prod.snd)).getLast? = some pooled.length := by
    rw [Weighted.getLast?_cumulative, Nat.zero_add, hlength]
    intro hnil
    rw [hnil] at hlength
    simp at hlength
    exact hne hlength
  obtain ⟨hnonneg, hbelow⟩ := hmul q pooled.length hpos hlt hcount
  obtain ⟨r, hr⟩ := Int.eq_ofNat_of_zero_le (Int.floor_nonneg.mpr hnonneg)
  have hrlt : r < pooled.length := by
    have hfloor := Int.floor_lt.mpr (by exact_mod_cast hbelow : mul q pooled.length < _)
    rw [hr] at hfloor
    exact_mod_cast hfloor
  have hmin : min (pooled.length - 1) (Int.ofNat r).toNat = r := by
    show min (pooled.length - 1) r = r
    omega
  have hrank : (fun total : ℕ => decide ((r : ℤ) < total)) =
      fun total => decide (0 + r < total) := by
    funext total
    rw [Nat.zero_add, decide_eq_decide]
    exact Int.ofNat_lt
  unfold nearestRank
  dsimp only
  rw [if_neg hne, hsort, hperm.length_eq, htotal, Option.getD_some, hr, hrank]
  show (Weighted.expand rows)[min (pooled.length - 1) (Int.ofNat r).toNat]? = _
  rw [hmin]
  have hvalue := Weighted.getElem?_expand rows 0 r
  cases hfind : (Weighted.cumulative 0 (rows.map Prod.snd)).findIdx? (0 + r < ·) with
  | some k =>
    rw [hvalue, hfind, Option.bind_some, Option.getD_some, List.getElem?_map]
  | none =>
    -- the rank is inside the list
    rw [hfind, Option.bind_none, List.getElem?_eq_none_iff, hperm.length_eq] at hvalue
    omega

/-- The rank is read off the running totals. -/
theorem quantile_drawn (hmul : Multiplies mul) {clips : List (ClipSample α)}
    (h : ArgSorts argsort (clips.map ClipSample.latencies).flatten) {q : ℚ} (hpos : 0 < q)
    (hlt : q < 1) (hlen : counts.length = clips.length) :
    quantile mul argsort (clips.map ClipSample.latencies) q counts =
      latencyPercentile mul (drawn clips counts) q := by
  have hperm := rows_perm h hlen
  have hfst := ordered_fst h
  unfold quantile latencyPercentile
  dsimp only
  rw [sum_timed, flatMap_timed]
  have hpooled : ((drawn clips counts).filter fun c => c.latencies ≠ []) ≠ [] →
      (drawn clips counts).flatMap ClipSample.latencies ≠ [] := by
    intro hne hnil
    obtain ⟨c, hc⟩ := List.exists_mem_of_ne_nil _ hne
    obtain ⟨hmem, htimed⟩ := List.mem_filter.mp hc
    exact of_decide_eq_true htimed (List.flatMap_eq_nil_iff.mp hnil c hmem)
  generalize ordered argsort (clips.map ClipSample.latencies) = rows at hperm hfst ⊢
  generalize (drawn clips counts).flatMap ClipSample.latencies = pooled at hperm hpooled ⊢
  generalize (drawn clips counts).filter (fun c => c.latencies ≠ []) = timed at hpooled ⊢
  by_cases hfloor : timed.length < sampleFloor q
  · rw [if_neg (Nat.not_le.mpr hfloor), if_pos hfloor, ite_self]
  · have htimed : timed ≠ [] := by
      intro hnil
      have hfloor' := sampleFloor_pos q
      rw [hnil, List.length_nil] at hfloor
      omega
    have hne : rows ≠ [] := by
      intro hnil
      rw [hnil] at hperm
      exact hpooled htimed (List.Perm.nil_eq hperm).symm
    have hweighed : (rows.map fun row => (row.1, counts.getD row.2 0)).map Prod.fst =
        rows.map Prod.fst := by
      rw [List.map_map]
      rfl
    have hweights : (rows.map fun row => (row.1, counts.getD row.2 0)).map Prod.snd =
        rows.map fun row => counts.getD row.2 0 := by
      rw [List.map_map]
      rfl
    have hvalue := nearestRank_rows hmul hpos hlt hperm (hweighed ▸ hfst) (hpooled htimed)
    rw [hweighed, hweights] at hvalue
    rw [if_pos (Nat.le_of_not_lt hfloor), if_neg hfloor, if_neg hne, hvalue]

/-- Every clip drawn once is the list of the clips. -/
theorem drawn_ones {β : Type*} (clips : List (ClipSample β)) :
    drawn clips (List.replicate clips.length 1) = clips := by
  induction clips with
  | nil => rfl
  | cons c clips ih =>
    have hdrawn : drawn (c :: clips) (List.replicate (c :: clips).length 1) =
        List.replicate 1 c ++ drawn clips (List.replicate clips.length 1) := rfl
    rw [hdrawn, ih]
    rfl

end

section

variable {α : Type*} [LinearOrder α]

/-- The bootstrap's percentile of a draw is that of the drawn list; the all-ones draw gives the
table's. -/
theorem bootstrapped_percentile (mul : ℚ → ℕ → ℚ) (hmul : Multiplies mul)
    (argsort : List α → List ℕ) (clips : List (ClipSample α))
    (hargsort : ArgSorts argsort (clips.map ClipSample.latencies).flatten) (q : ℚ) (hpos : 0 < q)
    (hlt : q < 1) :
    (∀ counts : List ℕ, counts.length = clips.length →
      quantile mul argsort (clips.map ClipSample.latencies) q counts =
        latencyPercentile mul (drawn clips counts) q) ∧
      quantile mul argsort (clips.map ClipSample.latencies) q (List.replicate clips.length 1) =
        latencyPercentile mul clips q := by
  refine ⟨fun counts hlen => quantile_drawn hmul hargsort hpos hlt hlen, ?_⟩
  rw [quantile_drawn hmul hargsort hpos hlt List.length_replicate, drawn_ones]

end

/-- Exact products are below the count. -/
theorem multiplies_exact : Multiplies fun q n => q * n := by
  intro q n hpos hlt hn
  have hn : (0 : ℚ) < n := Nat.cast_pos.mpr hn
  exact ⟨by positivity, by nlinarith⟩

/-- Two clips tie, one was not timed. -/
theorem bootstrapped_ties :
    quantile (fun q n => q * n) (fun _ => [1, 2, 3, 0]) [[3, 1], [], [2, 2]] (1 / 2) [2, 1, 1] =
        latencyPercentile (fun q n => q * n) [⟨[3, 1]⟩, ⟨[3, 1]⟩, ⟨[]⟩, ⟨[2, 2]⟩] (1 / 2) ∧
      quantile (fun q n => q * n) (fun _ => [1, 2, 3, 0]) [[3, 1], [], [2, 2]] (1 / 2) [1, 1, 1] =
        latencyPercentile (fun q n => q * n) [⟨[3, 1]⟩, ⟨[]⟩, ⟨[2, 2]⟩] (1 / 2) :=
  have h := bootstrapped_percentile (fun q n => q * n) multiplies_exact (fun _ => [1, 2, 3, 0])
    [⟨[3, 1]⟩, ⟨[]⟩, ⟨[2, 2]⟩] ⟨by decide, by decide⟩ (1 / 2) (by norm_num) (by norm_num)
  ⟨h.1 [2, 1, 1] rfl, h.2⟩

end Benchmarker

end Myna
