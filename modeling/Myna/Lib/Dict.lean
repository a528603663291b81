import Mathlib.Data.List.Basic
import Mathlib.Data.List.Sort

/-!
# Dictionaries that keep the order of their keys

A dictionary as the list of its entries, in the order in which the keys came in. Setting a key that
is there keeps its place. `insertSorted` keeps the keys in their own order instead.

* **`get?_set`**, **`get?_setDefault`** — what a key maps to after an update;
* **`get?_insertSorted`**, **`get?_remove`**, **`get?_mapVals`** — the same of a sorted one's
  updates;
* **`get?_of_mem`** — where the keys stand once, what is in the list is what a key maps to;
* **`mem_keys`** — the keys are what maps to something.
-/

abbrev Dict (κ ν : Type*) := List (κ × ν)

namespace Dict

variable {κ ν : Type*} [DecidableEq κ]

def get? : Dict κ ν → κ → Option ν
  | [], _ => none
  | (k, v) :: d, key => if k = key then some v else get? d key

def set : Dict κ ν → κ → ν → Dict κ ν
  | [], key, value => [(key, value)]
  | (k, v) :: d, key, value => if k = key then (k, value) :: d else (k, v) :: set d key value

def setDefault (d : Dict κ ν) (key : κ) (value : ν) : Dict κ ν :=
  match d.get? key with
  | some _ => d
  | none => d ++ [(key, value)]

def keys (d : Dict κ ν) : List κ := d.map Prod.fst

theorem get?_set (d : Dict κ ν) (key other : κ) (value : ν) :
    (d.set key value).get? other = if key = other then some value else d.get? other := by
  induction d with
  | nil => rfl
  | cons entry d ih =>
    obtain ⟨k, v⟩ := entry
    by_cases hk : k = key
    · subst hk
      simp only [set, get?, if_pos]
      split <;> rfl
    · rw [set, if_neg hk, get?, get?, ih]
      by_cases hother : k = other
      · subst hother
        rw [if_pos rfl, if_pos rfl, if_neg (Ne.symm hk)]
      · rw [if_neg hother, if_neg hother]

theorem get?_append (d more : Dict κ ν) (key : κ) :
    (d ++ more).get? key = (d.get? key).or (more.get? key) := by
  induction d with
  | nil => rfl
  | cons entry d ih =>
    obtain ⟨k, v⟩ := entry
    by_cases hk : k = key
    · simp [get?, hk]
    · simp [get?, hk, ih]

theorem get?_setDefault (d : Dict κ ν) (key other : κ) (value : ν) :
    (d.setDefault key value).get? other =
      if key = other then some ((d.get? key).getD value) else d.get? other := by
  unfold setDefault
  cases hget : d.get? key with
  | some v =>
    by_cases hk : key = other
    · rw [if_pos hk, ← hk, hget]
      rfl
    · rw [if_neg hk]
  | none =>
    show (d ++ [(key, value)]).get? other = _
    rw [get?_append]
    by_cases hk : key = other
    · rw [if_pos hk, ← hk, hget]
      simp [get?]
    · rw [if_neg hk]
      simp [get?, hk]

theorem mem_keys {d : Dict κ ν} {key : κ} : key ∈ d.keys ↔ ∃ value, d.get? key = some value := by
  induction d with
  | nil => simp [keys, get?]
  | cons entry d ih =>
    obtain ⟨k, v⟩ := entry
    by_cases hk : k = key
    · simp [keys, get?, hk]
    · have hne : key ≠ k := Ne.symm hk
      rw [get?, if_neg hk, ← ih]
      simp [keys, hne]

/-! ## Dictionaries in the order of their keys -/

/-- A key that is not there yet, put in its place. -/
def insertSorted [LinearOrder κ] (d : Dict κ ν) (key : κ) (value : ν) : Dict κ ν :=
  d.orderedInsert (fun a b => a.1 ≤ b.1) (key, value)

def remove (d : Dict κ ν) (key : κ) : Dict κ ν := d.filter fun entry => entry.1 ≠ key

def mapVals {ν' : Type*} (f : κ → ν → ν') (d : Dict κ ν) : Dict κ ν' :=
  d.map fun entry => (entry.1, f entry.1 entry.2)

theorem get?_remove (d : Dict κ ν) (key other : κ) :
    (d.remove key).get? other = if key = other then none else d.get? other := by
  induction d with
  | nil => simp [remove, get?]
  | cons entry d ih =>
    obtain ⟨k, v⟩ := entry
    have hcons : remove ((k, v) :: d) key =
        if k ≠ key then (k, v) :: remove d key else remove d key := by
      by_cases hk : k = key <;> simp [remove, hk]
    rw [hcons]
    by_cases hk : k = key
    · rw [if_neg (not_not.mpr hk), ih, get?]
      by_cases hother : key = other
      · rw [if_pos hother, if_pos hother]
      · rw [if_neg hother, if_neg hother, if_neg fun h => hother (hk ▸ h)]
    · rw [if_pos hk, get?, get?, ih]
      by_cases hother : k = other
      · rw [if_pos hother, if_pos hother, if_neg fun h => hk (hother.trans h.symm)]
      · rw [if_neg hother, if_neg hother]

theorem get?_mapVals {ν' : Type*} (f : κ → ν → ν') (d : Dict κ ν) (key : κ) :
    (d.mapVals f).get? key = (d.get? key).map (f key) := by
  induction d with
  | nil => rfl
  | cons entry d ih =>
    obtain ⟨k, v⟩ := entry
    show (if k = key then some (f k v) else get? (mapVals f d) key) = _
    rw [get?, ih]
    by_cases hk : k = key
    · rw [if_pos hk, if_pos hk, hk]
      rfl
    · rw [if_neg hk, if_neg hk]

theorem get?_insertSorted [LinearOrder κ] {d : Dict κ ν} {key : κ} (h : d.get? key = none)
    (other : κ) (value : ν) :
    (d.insertSorted key value).get? other = if key = other then some value else d.get? other := by
  induction d with
  | nil => rfl
  | cons entry d ih =>
    obtain ⟨k, v⟩ := entry
    have hne : k ≠ key := by
      rintro rfl
      simp [get?] at h
    rw [get?, if_neg hne] at h
    show get? (if key ≤ k then (key, value) :: (k, v) :: d else (k, v) :: insertSorted d key value)
      other = _
    by_cases hle : key ≤ k
    · rw [if_pos hle]
      rfl
    · rw [if_neg hle, get?, get?, ih h]
      by_cases hk : k = other
      · rw [if_pos hk, if_pos hk, if_neg fun heq => hne (hk.trans heq.symm)]
      · rw [if_neg hk, if_neg hk]

/-- Setting a key twice leaves the second value. -/
theorem set_set (d : Dict κ ν) (key : κ) (first second : ν) :
    (d.set key first).set key second = d.set key second := by
  induction d with
  | nil => simp [set]
  | cons entry d ih =>
    obtain ⟨k, v⟩ := entry
    by_cases hk : k = key
    · simp [set, hk]
    · simp only [set, if_neg hk, ih]

/-! ## Keys that stand once -/

theorem mem_of_get? {d : Dict κ ν} {key : κ} {value : ν} (h : d.get? key = some value) :
    (key, value) ∈ d := by
  induction d with
  | nil => cases h
  | cons entry d ih =>
    obtain ⟨k, v⟩ := entry
    rw [get?] at h
    split at h
    · rename_i hk
      obtain rfl := Option.some.inj h
      rw [hk]
      exact List.mem_cons_self
    · exact List.mem_cons_of_mem _ (ih h)

theorem get?_of_mem {d : Dict κ ν} (hd : d.keys.Nodup) {key : κ} {value : ν}
    (h : (key, value) ∈ d) : d.get? key = some value := by
  induction d with
  | nil => cases h
  | cons entry d ih =>
    obtain ⟨k, v⟩ := entry
    obtain ⟨hk, hd⟩ := List.nodup_cons.mp hd
    rw [get?]
    rcases List.mem_cons.mp h with heq | hmem
    · obtain ⟨rfl, rfl⟩ := Prod.mk.inj heq
      exact if_pos rfl
    · have hne : k ≠ key := by
        rintro rfl
        exact hk (List.mem_map.mpr ⟨_, hmem, rfl⟩)
      rw [if_neg hne]
      exact ih hd hmem

theorem keys_set {d : Dict κ ν} {key : κ} {old : ν} (h : d.get? key = some old) (value : ν) :
    (d.set key value).keys = d.keys := by
  induction d with
  | nil => cases h
  | cons entry d ih =>
    obtain ⟨k, v⟩ := entry
    rw [get?] at h
    by_cases hk : k = key
    · rw [set, if_pos hk]
      rfl
    · rw [if_neg hk] at h
      rw [set, if_neg hk]
      exact congrArg (k :: ·) (ih h)

omit [DecidableEq κ] in
theorem keys_mapVals {ν' : Type*} (f : κ → ν → ν') (d : Dict κ ν) :
    keys (mapVals f d) = d.keys := by
  unfold keys mapVals
  rw [List.map_map]
  rfl

theorem nodup_keys_setDefault {d : Dict κ ν} (h : d.keys.Nodup) (key : κ) (value : ν) :
    (d.setDefault key value).keys.Nodup := by
  unfold setDefault
  cases hget : d.get? key with
  | some _ => exact h
  | none =>
    have hkey : key ∉ d.keys := by
      intro hmem
      obtain ⟨value, hvalue⟩ := mem_keys.mp hmem
      rw [hget] at hvalue
      cases hvalue
    unfold keys at h hkey ⊢
    rw [List.map_append, List.nodup_append]
    refine ⟨h, List.nodup_singleton key, fun a ha b hb => ?_⟩
    rintro rfl
    have heq : a = key := List.mem_singleton.mp hb
    exact hkey (heq ▸ ha)

theorem nodup_keys_remove {d : Dict κ ν} (h : d.keys.Nodup) (key : κ) :
    (keys (d.remove key)).Nodup :=
  h.sublist (List.filter_sublist.map Prod.fst)

theorem nodup_keys_insertSorted [LinearOrder κ] {d : Dict κ ν} (h : d.keys.Nodup) {key : κ}
    (hkey : d.get? key = none) (value : ν) : (keys (d.insertSorted key value)).Nodup := by
  have hperm : (keys (d.insertSorted key value)).Perm (key :: d.keys) :=
    (List.perm_orderedInsert _ _ _).map Prod.fst
  refine hperm.nodup_iff.mpr (List.nodup_cons.mpr ⟨fun hmem => ?_, h⟩)
  obtain ⟨value, hvalue⟩ := mem_keys.mp hmem
  rw [hkey] at hvalue
  cases hvalue

end Dict
