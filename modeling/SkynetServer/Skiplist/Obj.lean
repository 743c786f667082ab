import Mathlib.Data.List.Lex
import Mathlib.Data.Prod.Lex
import Mathlib.Order.Lex

/-!
# The members of a skip list

A member is the text of a Lua string, and `compareslObj` of `skiplist.c` compares two of them with `memcmp` over the shorter
length and, where that finds no difference, by their lengths. The difference of the lengths is a `size_t` cut down to an
`int`, so that for members of less than `2 ^ 31` bytes the comparison is the lexicographic order. An entry is a score and a
member; the skip list is sorted by the score first and by the member among equal scores.
-/

namespace SkynetServer.Sl

/-- A `slobj`: its `length` bytes. -/
abbrev Obj := List UInt8

/-- The order of the bytes, as `memcmp` compares them. -/
scoped instance linearOrderByte : LinearOrder UInt8 where
  le_refl := UInt8.le_refl
  le_trans := fun _ _ _ => UInt8.le_trans
  lt_iff_le_not_ge := fun a b => by
    rw [UInt8.lt_iff_toNat_lt, UInt8.le_iff_toNat_le, UInt8.le_iff_toNat_le]
    omega
  le_antisymm := fun _ _ => UInt8.le_antisymm
  le_total := UInt8.le_total
  toDecidableLE := inferInstance

/-- The sign of the first difference among the first `n` bytes. -/
def memcmp : Obj → Obj → Nat → Int
  | _, _, 0 => 0
  | x :: a, y :: b, n + 1 => if x < y then -1 else if y < x then 1 else memcmp a b n
  | _, _, _ + 1 => 0

def compareslObj (a b : Obj) : Int :=
  let cmp := memcmp a b (if a.length ≤ b.length then a.length else b.length)
  if cmp = 0 then Int.bmod ((a.length : Int) - b.length) 0x100000000 else cmp

def equalslObj (a b : Obj) : Bool := compareslObj a b = 0

/-- The lengths whose difference is an `int`. -/
def Short (a : Obj) : Prop := a.length < 0x80000000

instance (a : Obj) : Decidable (Short a) := inferInstanceAs (Decidable (_ < _))

/-- A score and a member, in the order of the list. -/
abbrev Entry (α : Type) := α ×ₗ Obj

def Entry.score {α : Type} (e : Entry α) : α := (ofLex e).1

def Entry.obj {α : Type} (e : Entry α) : Obj := (ofLex e).2

/-! ### The comparison is the lexicographic order -/

theorem memcmp_eq_zero_iff {a b : Obj} :
    memcmp a b (min a.length b.length) = 0 ↔ a <+: b ∨ b <+: a := by
  induction a generalizing b with
  | nil => simp [memcmp]
  | cons x a ih =>
    cases b with
    | nil => simp [memcmp]
    | cons y b =>
      rw [List.length_cons, List.length_cons, Nat.add_min_add_right, memcmp]
      rcases lt_trichotomy x y with h | rfl | h
      · simp [h, List.cons_prefix_cons, h.ne, h.ne']
      · simp [List.cons_prefix_cons, ih]
      · simp [h, h.not_gt, List.cons_prefix_cons, h.ne, h.ne']

theorem memcmp_neg_iff {a b : Obj} :
    memcmp a b (min a.length b.length) < 0 ↔ a < b ∧ ¬ a <+: b := by
  induction a generalizing b with
  | nil => simp [memcmp]
  | cons x a ih =>
    cases b with
    | nil => simp [memcmp]
    | cons y b =>
      rw [List.length_cons, List.length_cons, Nat.add_min_add_right, memcmp]
      rcases lt_trichotomy x y with h | rfl | h
      · simp [h, List.cons_prefix_cons, List.cons_lt_cons_iff, h.ne]
      · simp [List.cons_prefix_cons, ih]
      · simp [h, h.not_gt, List.cons_prefix_cons, List.cons_lt_cons_iff, h.ne']

theorem lt_of_isPrefix {a b : Obj} (h : a <+: b) (hne : a ≠ b) : a < b := by
  obtain ⟨t, rfl⟩ := h
  induction a with
  | nil =>
    cases t with
    | nil => exact absurd rfl hne
    | cons y t => exact List.nil_lt_cons y t
  | cons x a ih =>
    rw [List.cons_append, List.cons_lt_cons_iff]
    exact .inr ⟨rfl, ih fun h => hne (by rw [List.cons_append, ← h])⟩

theorem compareslObj_eq (a b : Obj) : compareslObj a b =
    if memcmp a b (min a.length b.length) = 0 then Int.bmod ((a.length : Int) - b.length) 0x100000000
    else memcmp a b (min a.length b.length) := by
  rw [compareslObj, ← Nat.min_def]

theorem bmod_length_sub {a b : Obj} (ha : Short a) (hb : Short b) :
    Int.bmod ((a.length : Int) - b.length) 0x100000000 = (a.length : Int) - b.length := by
  unfold Short at ha hb
  exact Int.bmod_eq_of_le (by omega) (by omega)

/-- On members that are not too long the comparison tells which comes first. -/
theorem compareslObj_neg_iff {a b : Obj} (ha : Short a) (hb : Short b) : compareslObj a b < 0 ↔ a < b := by
  rw [compareslObj_eq]
  split
  next h =>
    rw [bmod_length_sub ha hb]
    rcases memcmp_eq_zero_iff.mp h with hpre | hpre
    · by_cases heq : a = b
      · simp [heq]
      · have hlen := hpre.length_le
        have hne : a.length ≠ b.length := fun h => heq (hpre.eq_of_length h)
        exact iff_of_true (by omega) (lt_of_isPrefix hpre heq)
    · have hlen := hpre.length_le
      refine iff_of_false (by omega) fun hlt => ?_
      exact (lt_of_isPrefix hpre hlt.ne').not_gt hlt
  next h =>
    rw [memcmp_neg_iff, and_iff_left]
    exact fun hpre => h (memcmp_eq_zero_iff.mpr (.inl hpre))

theorem compareslObj_eq_zero_iff {a b : Obj} (ha : Short a) (hb : Short b) : compareslObj a b = 0 ↔ a = b := by
  rw [compareslObj_eq]
  split
  next h =>
    rw [bmod_length_sub ha hb]
    constructor
    · intro hlen
      have hlen : a.length = b.length := by omega
      rcases memcmp_eq_zero_iff.mp h with hpre | hpre
      · exact hpre.eq_of_length hlen
      · exact (hpre.eq_of_length hlen.symm).symm
    · rintro rfl
      omega
  next h =>
    apply iff_of_false h
    intro heq
    subst heq
    exact h (memcmp_eq_zero_iff.mpr (.inl List.prefix_rfl))

theorem compareslObj_nonpos_iff {a b : Obj} (ha : Short a) (hb : Short b) : compareslObj a b ≤ 0 ↔ a ≤ b := by
  rw [le_iff_lt_or_eq, compareslObj_neg_iff ha hb, compareslObj_eq_zero_iff ha hb, ← le_iff_lt_or_eq]

@[simp] theorem equalslObj_iff {a b : Obj} (ha : Short a) (hb : Short b) : equalslObj a b = true ↔ a = b := by
  rw [equalslObj, decide_eq_true_iff, compareslObj_eq_zero_iff ha hb]

end SkynetServer.Sl
