import Mathlib.Data.List.Basic
import Mathlib.Data.Nat.ModEq
import Mathlib.Logic.Function.Basic

/-!
# RingBuffer buffers

A ring buffer is a memory of slots with a head and a tail below a capacity. Its meaning is the list of
elements from head to tail, wrapping once. Two users that grow in different ways share these facts: `put`
writes one element and advances the tail, `regrow` unrolls a ring whose tail has caught up with its head
into a larger one, and `take` advances the head. The indices are below the capacity by construction.
-/

namespace Lib

/-- Slots at and beyond the tail hold whatever was there before. -/
structure RingBuffer (α : Type*) where
  cap : Nat
  head : Nat
  tail : Nat
  slot : Nat → α
  head_lt : head < cap
  tail_lt : tail < cap

namespace RingBuffer

variable {α : Type*}

/-- The next index, wrapping at the capacity. -/
def advance (cap i : Nat) : Nat := if cap ≤ i + 1 then 0 else i + 1

theorem advance_lt {cap i : Nat} (hi : i < cap) : advance cap i < cap := by
  unfold advance
  split <;> omega

theorem advance_eq_mod {cap i : Nat} (hi : i < cap) : advance cap i = (i + 1) % cap := by
  unfold advance
  split
  · have : i + 1 = cap := by omega
    rw [this, Nat.mod_self]
  · rw [Nat.mod_eq_of_lt (by omega)]

/-- How many elements lie between head and tail. -/
def size (r : RingBuffer α) : Nat :=
  if r.tail < r.head then r.tail + r.cap - r.head else r.tail - r.head

theorem size_lt (r : RingBuffer α) : r.size < r.cap := by
  have := r.head_lt
  have := r.tail_lt
  unfold size
  split <;> omega

/-- The `n` slots from the head on, in order. -/
def view (r : RingBuffer α) (n : Nat) : List α :=
  (List.range n).map fun i => r.slot ((r.head + i) % r.cap)

/-- What the ring holds, oldest first. -/
def contents (r : RingBuffer α) : List α := r.view r.size

@[simp] theorem length_contents (r : RingBuffer α) : r.contents.length = r.size := by
  simp [contents, view]

theorem size_eq_zero_iff (r : RingBuffer α) : r.size = 0 ↔ r.head = r.tail := by
  have := r.head_lt
  have := r.tail_lt
  unfold size
  split <;> omega

theorem contents_eq_nil_iff (r : RingBuffer α) : r.contents = [] ↔ r.head = r.tail := by
  rw [← size_eq_zero_iff, ← length_contents, List.length_eq_zero_iff]

theorem head_add_size_mod (r : RingBuffer α) : (r.head + r.size) % r.cap = r.tail := by
  have hh := r.head_lt
  have ht := r.tail_lt
  unfold size
  split
  · rw [show r.head + (r.tail + r.cap - r.head) = r.tail + r.cap by omega, Nat.add_mod_right,
      Nat.mod_eq_of_lt ht]
  · rw [show r.head + (r.tail - r.head) = r.tail by omega, Nat.mod_eq_of_lt ht]

theorem slot_index_inj {cap head i j : Nat} (hi : i < cap) (hj : j < cap)
    (h : (head + i) % cap = (head + j) % cap) : i = j := by
  have hmod : i % cap = j % cap := Nat.ModEq.add_left_cancel' head h
  rwa [Nat.mod_eq_of_lt hi, Nat.mod_eq_of_lt hj] at hmod

/-- Write one element at the tail and advance it. When the tail reaches the head the ring is full and has
to be unrolled before it is read again. -/
def put (r : RingBuffer α) (x : α) : RingBuffer α where
  cap := r.cap
  head := r.head
  tail := advance r.cap r.tail
  slot := Function.update r.slot r.tail x
  head_lt := r.head_lt
  tail_lt := advance_lt r.tail_lt

theorem view_put (r : RingBuffer α) (x : α) : (r.put x).view (r.size + 1) = r.contents ++ [x] := by
  have hsize := r.size_lt
  have hlast : Function.update r.slot r.tail x ((r.head + r.size) % r.cap) = x := by
    rw [head_add_size_mod, Function.update_self]
  simp only [view, contents, put, List.range_succ, List.map_append, List.map_cons, List.map_nil, hlast]
  congr 1
  apply List.map_congr_left
  intro i hi
  have hlt : i < r.size := List.mem_range.mp hi
  rw [Function.update_of_ne]
  rw [← head_add_size_mod r]
  intro heq
  have := slot_index_inj (by omega) hsize heq
  omega

/-- Writing into a ring that does not become full appends. -/
theorem contents_put (r : RingBuffer α) (x : α) (hfull : r.head ≠ (r.put x).tail) :
    (r.put x).contents = r.contents ++ [x] := by
  have hsize : (r.put x).size = r.size + 1 := by
    have := r.head_lt
    have := r.tail_lt
    simp only [put, advance] at hfull
    simp only [size, put, advance]
    split <;> split <;> split <;> simp_all <;> omega
  rw [← view_put, contents, hsize]

/-- A ring whose tail caught up with its head holds a full turn of elements. -/
theorem view_put_of_full (r : RingBuffer α) (x : α) (hfull : r.head = (r.put x).tail) :
    (r.put x).view r.cap = r.contents ++ [x] := by
  have hsize : r.cap = r.size + 1 := by
    have := r.head_lt
    have := r.tail_lt
    simp only [put, advance] at hfull
    simp only [size]
    split at hfull <;> split <;> omega
  conv_lhs => rw [hsize]
  exact view_put r x

/-- Copy a full turn, from the head on, into a larger memory. -/
def regrow (r : RingBuffer α) (rest : Nat → α) (cap : Nat) (hcap : r.cap < cap) : RingBuffer α where
  cap := cap
  head := 0
  tail := r.cap
  slot := fun i => if i < r.cap then r.slot ((r.head + i) % r.cap) else rest i
  head_lt := by omega
  tail_lt := hcap

theorem contents_regrow (r : RingBuffer α) (rest : Nat → α) (cap : Nat) (hcap : r.cap < cap) :
    (r.regrow rest cap hcap).contents = r.view r.cap := by
  simp only [contents, view, size, regrow, Nat.not_lt_zero, if_false, Nat.sub_zero, Nat.zero_add]
  apply List.map_congr_left
  intro i hi
  have hlt : i < r.cap := List.mem_range.mp hi
  rw [Nat.mod_eq_of_lt (by omega), if_pos hlt]

/-- The element that makes a ring full is the last one of the turn, so it may as well be written into the copy. -/
theorem update_last_of_full (r : RingBuffer α) (x : α) (rest : Nat → α) (hfull : r.head = advance r.cap r.tail) :
    Function.update (fun i => if i < r.cap then r.slot ((r.head + i) % r.cap) else rest i) (r.cap - 1) x =
      fun i => if i < r.cap then Function.update r.slot r.tail x ((r.head + i) % r.cap) else rest i := by
  have hhead := r.head_lt
  have htail := r.tail_lt
  have hlast : (r.head + (r.cap - 1)) % r.cap = r.tail := by
    unfold advance at hfull
    split at hfull
    · rw [hfull, Nat.zero_add, Nat.mod_eq_of_lt (by omega)]
      omega
    · have heq : r.head + (r.cap - 1) = r.tail + r.cap := by omega
      rw [heq, Nat.add_mod_right, Nat.mod_eq_of_lt htail]
  funext i
  by_cases hi : i = r.cap - 1
  · subst hi
    rw [Function.update_self, if_pos (by omega), hlast, Function.update_self]
  · rw [Function.update_of_ne hi]
    split
    · rename_i hlt
      rw [Function.update_of_ne]
      rw [← hlast]
      exact fun heq => hi (slot_index_inj hlt (by omega) heq)
    · rfl

/-- Advance the head past one element. -/
def take (r : RingBuffer α) : RingBuffer α where
  cap := r.cap
  head := advance r.cap r.head
  tail := r.tail
  slot := r.slot
  head_lt := advance_lt r.head_lt
  tail_lt := r.tail_lt

/-- Reading a non-empty ring at its head and advancing removes the oldest element. -/
theorem contents_eq_cons_take (r : RingBuffer α) (hne : r.head ≠ r.tail) :
    r.contents = r.slot r.head :: r.take.contents := by
  have hh := r.head_lt
  have ht := r.tail_lt
  have hsize : r.size = r.take.size + 1 := by
    simp only [size, take, advance]
    split <;> split <;> split <;> omega
  rw [contents, view, hsize, List.range_succ_eq_map, List.map_cons, Nat.add_zero,
    Nat.mod_eq_of_lt hh, List.map_map, contents, view]
  congr 1
  apply List.map_congr_left
  intro i _
  simp only [take, Function.comp_apply, advance_eq_mod hh, Nat.mod_add_mod]
  congr 2
  omega

/-- Forget the elements and keep the memory. -/
def reset (r : RingBuffer α) : RingBuffer α where
  cap := r.cap
  head := 0
  tail := 0
  slot := r.slot
  head_lt := by have := r.head_lt; omega
  tail_lt := by have := r.head_lt; omega

@[simp] theorem contents_reset (r : RingBuffer α) : r.reset.contents = [] := rfl

theorem map_slot_range' (r : RingBuffer α) :
    (List.range' r.head r.size).map (fun i => r.slot (i % r.cap)) = r.contents := by
  rw [List.range'_eq_map_range, List.map_map]
  rfl

end RingBuffer

end Lib
