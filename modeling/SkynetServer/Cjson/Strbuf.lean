import Mathlib.Algebra.Order.Ring.Nat

/-!
# The string buffer of `strbuf.c`

A buffer has a size and the bytes written so far. The sizes are of type `int`: an operation fails where the C code would
compute one that does not fit, ends the process or write outside of the buffer. The increment of the buffers of `cjson` is
always the default one, so that they grow by doubling.
-/

namespace SkynetServer.Cjson

def intMax : Nat := 0x7fffffff

/-- A `size_t` given where an `int` is expected. -/
def toInt (n : Nat) : Int := Int.bmod n 0x100000000

structure Strbuf where
  size : Nat
  bytes : List UInt8
deriving DecidableEq

namespace Strbuf

def defaultSize : Nat := 1023

def length (s : Strbuf) : Nat := s.bytes.length

def init (len : Int) : Option Strbuf :=
  if len ≤ 0 then some ⟨defaultSize, []⟩
  else if len + 1 ≤ intMax then some ⟨(len + 1).toNat, []⟩
  else none

def reset (s : Strbuf) : Strbuf := { s with bytes := [] }

/-- The bytes that are left, without the one for the terminator. -/
def emptyLength (s : Strbuf) : Int := s.size - s.length - 1

/-- Exponential sizing. -/
def double : Nat → Nat → Nat → Option Nat
  | 0, _, _ => none
  | rounds + 1, newsize, reqsize =>
    if newsize < reqsize then
      if newsize * 2 ≤ intMax then double rounds (newsize * 2) reqsize else none
    else some newsize

def calculateNewSize (s : Strbuf) (len : Int) : Option Nat :=
  -- "BUG: Invalid strbuf length requested"
  if len ≤ 0 then none
  else if len + 1 ≤ intMax then
    let reqsize := (len + 1).toNat
    if s.size > reqsize then some reqsize else double 32 s.size reqsize
  else none

def resize (s : Strbuf) (len : Int) : Option Strbuf := do
  let newsize ← s.calculateNewSize len
  -- a smaller buffer would not hold the bytes any more
  if s.length ≤ newsize then return { s with size := newsize } else none

def ensureEmptyLength (s : Strbuf) (len : Int) : Option Strbuf :=
  if len > s.emptyLength then s.resize (s.length + len) else some s

def appendCharUnsafe (s : Strbuf) (c : UInt8) : Option Strbuf :=
  if s.length < s.size then some { s with bytes := s.bytes ++ [c] } else none

def appendChar (s : Strbuf) (c : UInt8) : Option Strbuf := do
  let s ← s.ensureEmptyLength 1
  s.appendCharUnsafe c

def appendMemUnsafe (s : Strbuf) (mem : List UInt8) : Option Strbuf :=
  if s.length + mem.length ≤ s.size then some { s with bytes := s.bytes ++ mem } else none

def appendMem (s : Strbuf) (mem : List UInt8) : Option Strbuf := do
  let s ← s.ensureEmptyLength mem.length
  s.appendMemUnsafe mem

/-- The loop of `strbuf_append_string`, with its own count of the space that is left. -/
def appendStringFrom : List UInt8 → Int → Strbuf → Option Strbuf
  | [], _, s => some s
  | c :: str, space, s => do
    if space < 1 then
      let s ← s.resize (s.length + 1)
      let space := s.emptyLength
      let s ← s.appendCharUnsafe c
      appendStringFrom str (space - 1) s
    else
      let s ← s.appendCharUnsafe c
      appendStringFrom str (space - 1) s

def appendString (s : Strbuf) (str : List UInt8) : Option Strbuf := appendStringFrom str s.emptyLength s

def ensureNull (s : Strbuf) : Option Strbuf := if s.length < s.size then some s else none

/-! ### What the buffer promises -/

/-- There is room for the terminator, and the size is an `int`. -/
structure Sound (s : Strbuf) : Prop where
  room : s.length < s.size
  int : s.size ≤ intMax

/-- Up to here doubling a size gives an `int`. -/
def limit : Nat := 0x40000000

theorem double_spec {rounds newsize reqsize : Nat} (hint : newsize ≤ intMax) (hreq : reqsize ≤ limit)
    (hrounds : reqsize ≤ newsize * 2 ^ rounds) :
    ∃ n, double (rounds + 1) newsize reqsize = some n ∧ newsize ≤ n ∧ reqsize ≤ n ∧ n ≤ intMax := by
  induction rounds generalizing newsize with
  | zero =>
    have hle : ¬ newsize < reqsize := by omega
    exact ⟨newsize, by rw [double, if_neg hle], Nat.le_refl _, Nat.not_lt.mp hle, hint⟩
  | succ rounds ih =>
    by_cases hlt : newsize < reqsize
    · have htwice : newsize * 2 ≤ intMax := by
        unfold limit at hreq
        unfold intMax
        omega
      obtain ⟨n, hrun, hold, hnew, hn⟩ := ih htwice (by rw [pow_succ'] at hrounds; rwa [Nat.mul_assoc])
      refine ⟨n, ?_, by omega, hnew, hn⟩
      rw [double, if_pos hlt, if_pos htwice, hrun]
    · exact ⟨newsize, by rw [double, if_neg hlt], Nat.le_refl _, Nat.not_lt.mp hlt, hint⟩

theorem Sound.resize_spec {s : Strbuf} (h : s.Sound) {len : Nat} (hpos : 0 < len) (hlong : s.size ≤ len + 1)
    (hlimit : len < limit) :
    ∃ size, s.resize len = some { s with size } ∧ s.size ≤ size ∧ len < size ∧ size ≤ intMax := by
  have hroom := h.room
  have hreq : len + 1 ≤ limit := hlimit
  have hint : ((len : Int) + 1) ≤ intMax := by
    unfold limit at hlimit
    unfold intMax
    omega
  have hrounds : len + 1 ≤ s.size * 2 ^ 31 := by
    have hone : 2 ^ 31 ≤ s.size * 2 ^ 31 := Nat.le_mul_of_pos_left _ (by omega)
    unfold limit at hlimit
    omega
  obtain ⟨size, hdouble, hold, hnew, hsize⟩ := double_spec h.int hreq hrounds
  refine ⟨size, ?_, hold, hnew, hsize⟩
  have hnot : ¬ s.size > (len + 1 : Int).toNat := by omega
  have hcalculate : s.calculateNewSize len = some size := by
    rw [calculateNewSize, if_neg (by omega), if_pos hint]
    simp only [if_neg hnot]
    exact hdouble
  rw [resize, hcalculate]
  exact if_pos (by omega)

theorem Sound.ensureEmptyLength_spec {s : Strbuf} (h : s.Sound) {len : Nat} (hlimit : s.length + len < limit) :
    ∃ size, s.ensureEmptyLength len = some { s with size } ∧ s.size ≤ size ∧ s.length + len < size ∧ size ≤ intMax := by
  have hroom := h.room
  by_cases hmore : (len : Int) > s.emptyLength
  · have hlong : s.size ≤ s.length + len + 1 ∧ 0 < s.length + len := by
      unfold emptyLength at hmore
      omega
    rw [ensureEmptyLength, if_pos hmore]
    exact h.resize_spec hlong.2 hlong.1 hlimit
  · refine ⟨s.size, by rw [ensureEmptyLength, if_neg hmore], Nat.le_refl _, ?_, h.int⟩
    unfold emptyLength at hmore
    omega

/-! An append that fits leaves the size as it is. -/

theorem appendCharUnsafe_of_room {s : Strbuf} (h : s.length < s.size) (c : UInt8) :
    s.appendCharUnsafe c = some { s with bytes := s.bytes ++ [c] } := if_pos h

theorem appendMemUnsafe_of_room {s : Strbuf} {mem : List UInt8} (h : s.length + mem.length ≤ s.size) :
    s.appendMemUnsafe mem = some { s with bytes := s.bytes ++ mem } := if_pos h

theorem appendStringFrom_of_room {str : List UInt8} {space : Int} {s : Strbuf} (hspace : str.length ≤ space)
    (h : s.length + str.length < s.size) :
    appendStringFrom str space s = some { s with bytes := s.bytes ++ str } := by
  induction str generalizing space s with
  | nil => simp [appendStringFrom]
  | cons c str ih =>
    rw [List.length_cons] at hspace h
    rw [appendStringFrom, if_neg (by omega), appendCharUnsafe_of_room (by omega)]
    have hrest := @ih (space - 1) { s with bytes := s.bytes ++ [c] } (by omega)
      (by simp only [length, List.length_append, List.length_singleton] at h ⊢; omega)
    simpa using hrest

theorem appendString_of_room {s : Strbuf} {str : List UInt8} (h : s.length + str.length < s.size) :
    s.appendString str = some { s with bytes := s.bytes ++ str } :=
  appendStringFrom_of_room (by unfold emptyLength; omega) h

/-- The buffer has the given bytes, and is no smaller than it was. -/
structure Extends (s s' : Strbuf) (bytes : List UInt8) : Prop where
  sound : s'.Sound
  bytes_eq : s'.bytes = s.bytes ++ bytes
  size_le : s.size ≤ s'.size

theorem Extends.length_eq {s s' : Strbuf} {bytes : List UInt8} (h : s.Extends s' bytes) :
    s'.length = s.length + bytes.length := by
  rw [length, h.bytes_eq, List.length_append]
  rfl

theorem Extends.refl {s : Strbuf} (h : s.Sound) : s.Extends s [] := ⟨h, by simp, Nat.le_refl _⟩

theorem Extends.trans {s s' s'' : Strbuf} {a b : List UInt8} (h : s.Extends s' a) (h' : s'.Extends s'' b) :
    s.Extends s'' (a ++ b) :=
  ⟨h'.sound, by rw [h'.bytes_eq, h.bytes_eq, List.append_assoc], h.size_le.trans h'.size_le⟩

theorem Sound.appendMem_spec {s : Strbuf} (h : s.Sound) {mem : List UInt8} (hlimit : s.length + mem.length < limit) :
    ∃ s', s.appendMem mem = some s' ∧ s.Extends s' mem := by
  obtain ⟨size, hensure, hold, hroom, hint⟩ := h.ensureEmptyLength_spec hlimit
  refine ⟨{ size, bytes := s.bytes ++ mem }, ?_, ⟨?_, hint⟩, rfl, hold⟩
  · rw [appendMem, hensure]
    exact appendMemUnsafe_of_room (by simp only [length] at hroom ⊢; omega)
  · simpa [length] using hroom

theorem Sound.appendChar_spec {s : Strbuf} (h : s.Sound) {c : UInt8} (hlimit : s.length + 1 < limit) :
    ∃ s', s.appendChar c = some s' ∧ s.Extends s' [c] := by
  obtain ⟨size, hensure, hold, hroom, hint⟩ := h.ensureEmptyLength_spec hlimit
  refine ⟨{ size, bytes := s.bytes ++ [c] }, ?_, ⟨?_, hint⟩, rfl, hold⟩
  · rw [appendChar, show (1 : Int) = ((1 : Nat) : Int) from rfl, hensure]
    exact appendCharUnsafe_of_room (by simp only [length] at hroom ⊢; omega) c
  · simpa [length] using hroom

end Strbuf

end SkynetServer.Cjson
