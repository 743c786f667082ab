import Mathlib.Data.List.Basic
import Mathlib.Order.Bounds.Basic
import SkynetServer.Lib.Number

/-!
# `table.lower_bound`

The binary search of `preload/luaext.lua`, over an array of numbers or, with `field`, of records. `first` counts from 0 and
the array from 1. The numbers are those of Lua: integers, floats, the infinities and NaN, which is below no number, so that a
search for it ends at the first place. A place outside of the array reads as `nil`, and the comparison or the index that
follows then ends the call, so a call that returns has not read one.
-/

namespace SkynetServer.Luaext

open Lib

inductive LuaError where
  | indexNil
  | indexNumber
  | compareNil
  | compareTable
deriving DecidableEq

/-- What an array holds. A record has a number, or nothing, under each of its keys. -/
inductive Element (K : Type) where
  | number (a : Number)
  | record (fields : K → Option Number)

section

variable {K : Type}

/-- `field and element[field] or element`. Every number counts as true, and an absent field falls through to the element. -/
def valueOf (field : Option K) (element : Option (Element K)) : Except LuaError (Option (Element K)) :=
  match field, element with
  | none, element => .ok element
  | some _, none => .error .indexNil
  | some _, some (.number _) => .error .indexNumber
  | some field, some (.record fields) =>
    match fields field with
    | none => .ok (some (.record fields))
    | some a => .ok (some (.number a))

/-- `value < x`. -/
def lessThan (value : Option (Element K)) (x : Number) : Except LuaError Bool :=
  match value with
  | none => .error .compareNil
  | some (.record _) => .error .compareTable
  | some (.number a) => .ok (a < x)

/-- The loop of `lower_bound`. -/
def lowerBoundLoop (elements : List (Element K)) (x : Number) (field : Option K) (first len : Nat) : Except LuaError Nat :=
  if len > 0 then
    let half := len / 2
    let mid := first + half
    match valueOf field elements[mid]? with
    | .error e => .error e
    | .ok value =>
      match lessThan value x with
      | .error e => .error e
      | .ok true => lowerBoundLoop elements x field (mid + 1) (len - half - 1)
      | .ok false => lowerBoundLoop elements x field first half
  else .ok (first + 1)
termination_by len

def lowerBound (elements : List (Element K)) (x : Number) (field : Option K) : Except LuaError Nat :=
  lowerBoundLoop elements x field 0 elements.length

/-! ### What an array is searched for -/

/-- An array in non-decreasing order of the values that the search compares: its numbers, or a field of its records. -/
inductive SortedBy : List (Element K) → Option K → List Number → Prop where
  | numbers (values : List Number) (hsorted : values.Pairwise (· ≤ ·)) : SortedBy (values.map .number) none values
  | records (elements : List (K → Option Number)) (field : K) (values : List Number)
      (hvalues : elements.map (· field) = values.map some) (hsorted : values.Pairwise (· ≤ ·)) :
      SortedBy (elements.map .record) (some field) values

/-- The indices of the array, from 1 on, at which the value is at least `x`. -/
def AtLeast (values : List Number) (x : Number) : Set Nat := {i | 1 ≤ i ∧ ∃ v, values[i - 1]? = some v ∧ x ≤ v}

/-- The least index with a value at least `x`, or the one behind the array. -/
def IsLowerBound (values : List Number) (x : Number) (i : Nat) : Prop :=
  IsLeast (AtLeast values x) i ∨ AtLeast values x = ∅ ∧ i = values.length + 1

theorem SortedBy.pairwise {elements : List (Element K)} {field : Option K} {values : List Number}
    (h : SortedBy elements field values) : values.Pairwise (· ≤ ·) := by
  cases h with
  | numbers _ hsorted => exact hsorted
  | records _ _ _ _ hsorted => exact hsorted

theorem SortedBy.length_eq {elements : List (Element K)} {field : Option K} {values : List Number}
    (h : SortedBy elements field values) : elements.length = values.length := by
  cases h with
  | numbers => rw [List.length_map]
  | records elements field values hvalues =>
    have hlength := congrArg List.length hvalues
    rw [List.length_map, List.length_map] at hlength
    rw [List.length_map, hlength]

theorem SortedBy.valueOf_eq {elements : List (Element K)} {field : Option K} {values : List Number}
    (h : SortedBy elements field values) {i : Nat} {v : Number} (hv : values[i]? = some v) :
    valueOf field elements[i]? = .ok (some (.number v)) := by
  cases h with
  | numbers values =>
    rw [List.getElem?_map, hv]
    rfl
  | records elements field values hvalues =>
    have hfield : (elements.map (· field))[i]? = some (some v) := by
      rw [hvalues, List.getElem?_map, hv]
      rfl
    rw [List.getElem?_map] at hfield
    obtain ⟨fields, hfields, hat⟩ := Option.map_eq_some_iff.mp hfield
    rw [List.getElem?_map, hfields]
    simp only [Option.map_some, valueOf, hat]

/-- The values of a sorted array, none of which is NaN. -/
structure Sorted (values : List Number) : Prop where
  pairwise : values.Pairwise (· ≤ ·)
  noNan : ∀ v ∈ values, ¬ v.IsNan

theorem Sorted.le {values : List Number} (h : Sorted values) {i j : Nat} {v w : Number} (hij : i ≤ j)
    (hv : values[i]? = some v) (hw : values[j]? = some w) : v ≤ w := by
  rcases hij.eq_or_lt with rfl | hlt
  · obtain rfl := Option.some.inj (hv.symm.trans hw)
    exact Number.le_self (h.noNan v (List.mem_of_getElem? hv))
  · obtain ⟨hi, rfl⟩ := List.getElem?_eq_some_iff.mp hv
    obtain ⟨hj, rfl⟩ := List.getElem?_eq_some_iff.mp hw
    exact List.pairwise_iff_getElem.mp h.pairwise i j hi hj hlt

/-- What the search knows when `len` places behind `first` are left. -/
structure Window (values : List Number) (x : Number) (first len : Nat) : Prop where
  inside : first + len ≤ values.length
  below : ∀ i v, i < first → values[i]? = some v → v < x
  above : ∀ i v, first + len ≤ i → values[i]? = some v → x ≤ v

theorem Window.init (values : List Number) (x : Number) : Window values x 0 values.length where
  inside := (Nat.zero_add _).le
  below := fun i v hi => absurd hi (Nat.not_lt_zero i)
  above := by
    intro i v hi hv
    have hlt := (List.getElem?_eq_some_iff.mp hv).1
    omega

/-- The value in the middle is smaller: the search goes on behind it. -/
theorem Window.right {values : List Number} {x v : Number} {first len half : Nat} (h : Window values x first len)
    (hsorted : Sorted values) (hhalf : half < len) (hv : values[first + half]? = some v) (hless : v < x) :
    Window values x (first + half + 1) (len - half - 1) where
  inside := by
    have := h.inside
    omega
  below := fun i w hi hw => Number.lt_of_le_of_lt (hsorted.le (by omega) hw hv) hless
  above := fun i w hi hw => h.above i w (by omega) hw

/-- It is not: the search goes on in front of it. -/
theorem Window.left {values : List Number} {x v : Number} {first len half : Nat} (h : Window values x first len)
    (hsorted : Sorted values) (hhalf : half < len) (hv : values[first + half]? = some v) (hle : x ≤ v) :
    Window values x first half where
  inside := by
    have := h.inside
    omega
  below := h.below
  above := fun i w hi hw => Number.le_trans hle (hsorted.le hi hv hw)

theorem Window.isLowerBound {values : List Number} {x : Number} {first : Nat} (h : Window values x first 0) :
    IsLowerBound values x (first + 1) := by
  have hge : ∀ i ∈ AtLeast values x, first + 1 ≤ i := by
    rintro i ⟨hi, v, hv, hle⟩
    by_contra hlt
    exact Number.not_lt_of_le hle (h.below (i - 1) v (by omega) hv)
  rcases h.inside.eq_or_lt with heq | hlt
  · refine .inr ⟨Set.eq_empty_iff_forall_notMem.mpr fun i hi => ?_, by omega⟩
    have hfirst := hge i hi
    obtain ⟨-, v, hv, -⟩ := hi
    have hlt := (List.getElem?_eq_some_iff.mp hv).1
    omega
  · have hv : values[first]? = some values[first] := List.getElem?_eq_getElem (by omega)
    exact .inl ⟨⟨by omega, _, hv, h.above first _ (by omega) hv⟩, hge⟩

theorem lowerBoundLoop_spec {elements : List (Element K)} {field : Option K} {values : List Number}
    (h : SortedBy elements field values) (hnan : ∀ v ∈ values, ¬ v.IsNan) {x : Number} (hx : ¬ x.IsNan) (first len : Nat)
    (hwindow : Window values x first len) :
    ∃ i, lowerBoundLoop elements x field first len = .ok i ∧ IsLowerBound values x i := by
  have hsorted : Sorted values := ⟨h.pairwise, hnan⟩
  induction len using Nat.strongRecOn generalizing first with
  | ind len ih =>
    rw [lowerBoundLoop]
    by_cases hlen : len > 0
    · rw [if_pos hlen]
      have hhalf : len / 2 < len := by omega
      obtain ⟨v, hv⟩ : ∃ v, values[first + len / 2]? = some v :=
        ⟨_, List.getElem?_eq_getElem (by have := hwindow.inside; omega)⟩
      simp only [h.valueOf_eq hv, lessThan]
      by_cases hless : v < x
      · simp only [hless, decide_true]
        exact ih _ (by omega) _ (hwindow.right hsorted hhalf hv hless)
      · have hle : x ≤ v := (Number.not_lt hx (hnan v (List.mem_of_getElem? hv))).mp hless
        simp only [hless, decide_false]
        exact ih _ hhalf _ (hwindow.left hsorted hhalf hv hle)
    · obtain rfl : len = 0 := by omega
      rw [if_neg hlen]
      exact ⟨first + 1, rfl, hwindow.isLowerBound⟩

/-- **The search.** On a sorted array, where neither `x` nor a value is NaN, it returns the least index whose value is at least
`x`, or the one behind the array. -/
theorem lowerBound_correct {elements : List (Element K)} {field : Option K} {values : List Number}
    (h : SortedBy elements field values) (hnan : ∀ v ∈ values, ¬ v.IsNan) (x : Number) (hx : ¬ x.IsNan) :
    ∃ i, lowerBound elements x field = .ok i ∧ IsLowerBound values x i := by
  have hwindow := Window.init values x
  rw [← h.length_eq] at hwindow
  exact lowerBoundLoop_spec h hnan hx 0 elements.length hwindow

end

/-- A record with a score. -/
def scored (score : Number) : Bool → Option Number := fun field => if field then some score else none

/-- Records with the same score twice. -/
theorem lowerBound_correct_duplicates :
    SortedBy ([scored 3, scored 5, scored 5, scored 9].map .record) (some true) [3, 5, 5, 9] ∧
      ∃ i, lowerBound ([scored 3, scored 5, scored 5, scored 9].map .record) 5 (some true) = .ok i ∧
        IsLowerBound [3, 5, 5, 9] 5 i := by
  have hsorted : SortedBy ([scored 3, scored 5, scored 5, scored 9].map .record) (some true) [3, 5, 5, 9] :=
    .records [scored 3, scored 5, scored 5, scored 9] true _ rfl (by decide +kernel)
  exact ⟨hsorted, lowerBound_correct hsorted (by decide +kernel) 5 (by decide +kernel)⟩

/-- A search for NaN returns the first place, and no value is at least NaN. -/
theorem not_lowerBound_correct_nan :
    ¬ ∀ (values : List Number) (x : Number), values.Pairwise (· ≤ ·) →
      ∃ i, lowerBound (K := Unit) (values.map .number) x none = .ok i ∧ IsLowerBound values x i := by
  intro hall
  have hless : ∀ a : Number, ¬ a < .double .nan := by
    rintro a ⟨x, hx, y, hy, -⟩
    cases hy
  have hfirst : lowerBound (K := Unit) ([1, 2, 3].map .number) (.double .nan) none = .ok 1 := by
    simp [lowerBound, lowerBoundLoop, valueOf, lessThan, hless]
  obtain ⟨i, hrun, hi⟩ := hall [1, 2, 3] (.double .nan) (by decide +kernel)
  obtain rfl : 1 = i := Except.ok.inj (hfirst.symm.trans hrun)
  rcases hi with ⟨⟨-, v, -, hle⟩, -⟩ | ⟨-, hlast⟩
  · exact (Number.not_isNan_of_le hle).1 rfl
  · cases hlast

end SkynetServer.Luaext
