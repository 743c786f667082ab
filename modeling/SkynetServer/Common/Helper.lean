import Mathlib.Data.List.Basic
import Mathlib.Tactic.NormNum

/-!
# The length of a text

`get_string_len` of `common/helper.lua` counts the characters of a byte string from the lead byte of each. It keeps the
number of bytes that are left and stops when that number is exactly 0. A lead byte that announces more bytes than are left
takes it below 0; the index, its negation, then counts from the front of the string and grows with every turn, until there is
no byte and the comparison with `nil` ends the call.
-/

namespace SkynetServer.Helper

inductive LuaError where
  | compareNumberWithNil
deriving DecidableEq

/-- `string.byte(s, i)`: 1 is the first byte, -1 the last one. -/
def stringByte (s : List UInt8) (i : Int) : Option UInt8 :=
  if 0 < i then s[(i - 1).toNat]?
  else if i = 0 ∨ (s.length : Int) < -i then none
  else s[(s.length + i).toNat]?

def arr : List UInt8 := [0, 0xc0, 0xe0, 0xf0, 0xf8, 0xfc]

/-- The inner loop from `i` down: what it takes off `left`. -/
def lowered (tmp : UInt8) : Nat → Nat
  | 0 => 0
  | i + 1 => if tmp ≥ arr.getD i 0 then i + 1 else lowered tmp i

/-- How many bytes a character takes, by its first one. -/
def charSize (lead : UInt8) : Nat :=
  if lead < 0xc0 then 1
  else if lead < 0xe0 then 2
  else if lead < 0xf0 then 3
  else if lead < 0xf8 then 4
  else if lead < 0xfc then 5
  else 6

theorem charSize_eq (lead : UInt8) :
    charSize lead = if lead.toNat < 192 then 1 else if lead.toNat < 224 then 2 else if lead.toNat < 240 then 3
      else if lead.toNat < 248 then 4 else if lead.toNat < 252 then 5 else 6 := by
  simp only [charSize, UInt8.lt_iff_toNat_lt, UInt8.reduceToNat]

theorem lowered_eq (tmp : UInt8) : lowered tmp arr.length = charSize tmp := by
  simp only [lowered, arr, charSize_eq, List.length_cons, List.length_nil, Nat.zero_add, Nat.reduceAdd,
    List.getD_cons_succ, List.getD_cons_zero, ge_iff_le, UInt8.le_iff_toNat_le, UInt8.reduceToNat]
  split_ifs <;> omega

theorem charSize_pos (lead : UInt8) : 0 < charSize lead := by
  unfold charSize
  split_ifs <;> decide

theorem stringByte_some {s : List UInt8} {i : Int} {tmp : UInt8} (h : stringByte s i = some tmp) :
    -s.length ≤ i ∧ i ≤ s.length := by
  unfold stringByte at h
  split_ifs at h with hpos hneg
  · have hlt := (List.getElem?_eq_some_iff.mp h).1
    omega
  · omega

/-- The loop of `get_string_len`. -/
def getStringLenLoop (input : List UInt8) (left : Int) (cnt : Nat) : Except LuaError Nat :=
  if left = 0 then .ok cnt
  else
    match h : stringByte input (-left) with
    | none => .error .compareNumberWithNil
    | some tmp => getStringLenLoop input (left - lowered tmp arr.length) (cnt + 1)
termination_by (left + input.length + 1).toNat
decreasing_by
  have hbyte := stringByte_some h
  have hpos := charSize_pos tmp
  rw [lowered_eq]
  omega

def getStringLen (input : List UInt8) : Except LuaError Nat := getStringLenLoop input input.length 0

/-! ### The turns of the loop -/

theorem loop_zero (input : List UInt8) (cnt : Nat) : getStringLenLoop input 0 cnt = .ok cnt := by
  rw [getStringLenLoop, if_pos rfl]

theorem loop_of_none {input : List UInt8} {left : Int} (cnt : Nat) (hleft : left ≠ 0)
    (h : stringByte input (-left) = none) : getStringLenLoop input left cnt = .error .compareNumberWithNil := by
  rw [getStringLenLoop, if_neg hleft]
  split
  · rfl
  · rename_i tmp htmp
    rw [h] at htmp
    cases htmp

theorem loop_of_some {input : List UInt8} {left : Int} {tmp : UInt8} (cnt : Nat) (hleft : left ≠ 0)
    (h : stringByte input (-left) = some tmp) :
    getStringLenLoop input left cnt = getStringLenLoop input (left - charSize tmp) (cnt + 1) := by
  rw [getStringLenLoop, if_neg hleft, ← lowered_eq]
  split
  · rename_i hnone
    rw [h] at hnone
    cases hnone
  · rename_i tmp' htmp
    rw [h] at htmp
    rw [Option.some.inj htmp]

theorem loop_of_neg (input : List UInt8) (left : Int) (cnt : Nat) (hneg : left < 0) :
    getStringLenLoop input left cnt = .error .compareNumberWithNil := by
  induction left, cnt using getStringLenLoop.induct input with
  | case1 => omega
  | case2 left cnt hleft hnone => exact loop_of_none cnt hleft hnone
  | case3 left cnt hleft tmp htmp ih =>
    rw [loop_of_some cnt hleft htmp, ← lowered_eq]
    exact ih (by omega)

theorem stringByte_rest (before rest : List UInt8) (lead : UInt8) :
    stringByte (before ++ lead :: rest) (-((lead :: rest).length : Int)) = some lead := by
  have hlength : (before ++ lead :: rest).length = before.length + (lead :: rest).length := List.length_append
  have hindex : (((before ++ lead :: rest).length : Int) + -((lead :: rest).length : Int)).toNat = before.length := by
    rw [hlength]
    omega
  have hpos : 0 < (lead :: rest).length := by simp
  rw [stringByte, if_neg (by omega), if_neg (by omega), hindex]
  simp

/-! ### Whole characters -/

/-- As many bytes as the first one announces. -/
def IsChar (c : List UInt8) : Prop := ∃ lead tail, c = lead :: tail ∧ c.length = charSize lead

/-- The string is a sequence of whole characters. -/
def WholeChars (s : List UInt8) : Prop := ∃ chars : List (List UInt8), s = chars.flatten ∧ ∀ c ∈ chars, IsChar c

/-- The string is a sequence of `n` whole characters. -/
def Splits (s : List UInt8) (n : Nat) : Prop :=
  ∃ chars : List (List UInt8), s = chars.flatten ∧ (∀ c ∈ chars, IsChar c) ∧ n = chars.length

theorem splits_nil_iff (n : Nat) : Splits [] n ↔ n = 0 := by
  constructor
  · rintro ⟨chars, hflat, hchars, rfl⟩
    cases chars with
    | nil => rfl
    | cons c chars =>
      obtain ⟨lead, tail, rfl, -⟩ := hchars c List.mem_cons_self
      cases hflat
  · rintro rfl
    exact ⟨[], rfl, by simp, rfl⟩

theorem isChar_take {lead : UInt8} {rest : List UInt8} (hfits : charSize lead ≤ (lead :: rest).length) :
    IsChar ((lead :: rest).take (charSize lead)) := by
  refine ⟨lead, rest.take (charSize lead - 1), ?_, ?_⟩
  · rw [List.take_cons (charSize_pos lead)]
  · exact List.length_take_of_le hfits

theorem splits_cons_iff (lead : UInt8) (rest : List UInt8) (n : Nat) :
    Splits (lead :: rest) n ↔ charSize lead ≤ (lead :: rest).length ∧
      ∃ m, n = m + 1 ∧ Splits ((lead :: rest).drop (charSize lead)) m := by
  constructor
  · rintro ⟨chars, hflat, hchars, rfl⟩
    cases chars with
    | nil => cases hflat
    | cons c chars =>
      obtain ⟨lead', tail, rfl, hlength⟩ := hchars c List.mem_cons_self
      rw [List.flatten_cons] at hflat
      obtain ⟨rfl, -⟩ := List.cons.inj hflat
      rw [hflat]
      refine ⟨?_, chars.length, List.length_cons, chars, ?_, fun d hd => hchars d (List.mem_cons_of_mem _ hd), rfl⟩
      · rw [List.length_append]
        omega
      · rw [← hlength, List.drop_left]
  · rintro ⟨hfits, m, rfl, chars, hflat, hchars, rfl⟩
    refine ⟨(lead :: rest).take (charSize lead) :: chars, ?_, ?_, List.length_cons.symm⟩
    · rw [List.flatten_cons, ← hflat, List.take_append_drop]
    · intro c hc
      rcases List.mem_cons.mp hc with rfl | hc
      · exact isChar_take hfits
      · exact hchars c hc

/-- What the loop counts, from a place between two characters on. -/
theorem loop_eq_ok_iff (before rest : List UInt8) (cnt n : Nat) :
    getStringLenLoop (before ++ rest) rest.length cnt = .ok n ↔ ∃ m, n = cnt + m ∧ Splits rest m := by
  induction hlen : rest.length using Nat.strongRecOn generalizing before rest cnt with
  | ind k ih =>
    subst hlen
    cases rest with
    | nil =>
      rw [List.length_nil, Nat.cast_zero, loop_zero, Except.ok.injEq]
      simp only [splits_nil_iff, exists_eq_right, Nat.add_zero]
      exact eq_comm
    | cons lead rest =>
      have hne : ((lead :: rest).length : Int) ≠ 0 := by simp; omega
      have hpos := charSize_pos lead
      rw [loop_of_some cnt hne (stringByte_rest before rest lead)]
      simp only [splits_cons_iff]
      by_cases hfits : charSize lead ≤ (lead :: rest).length
      · have hlength : ((lead :: rest).drop (charSize lead)).length = (lead :: rest).length - charSize lead :=
          List.length_drop
        have hleft : ((lead :: rest).length : Int) - charSize lead = ((lead :: rest).drop (charSize lead)).length := by
          rw [hlength]
          omega
        have hinput : before ++ lead :: rest =
            (before ++ (lead :: rest).take (charSize lead)) ++ (lead :: rest).drop (charSize lead) := by
          rw [List.append_assoc, List.take_append_drop]
        rw [hleft, hinput, ih _ (by rw [hlength]; omega) _ _ _ rfl]
        constructor
        · rintro ⟨m, rfl, hsplits⟩
          exact ⟨m + 1, by omega, hfits, m, rfl, hsplits⟩
        · rintro ⟨-, rfl, -, m, rfl, hsplits⟩
          exact ⟨m, by omega, hsplits⟩
      · rw [loop_of_neg _ _ _ (by omega)]
        refine iff_of_false (fun h => nomatch h) ?_
        rintro ⟨m, -, hfits', -⟩
        exact hfits hfits'

theorem getStringLen_eq_ok_iff (s : List UInt8) (n : Nat) : getStringLen s = .ok n ↔ Splits s n := by
  have h := loop_eq_ok_iff [] s 0 n
  simp only [List.nil_append, Nat.zero_add, exists_eq_left'] at h
  exact h

/-! ### UTF-8 -/

/-- The encoding of a code point begins with a byte that announces its length. -/
theorem isChar_utf8EncodeChar (c : Char) : IsChar (String.utf8EncodeChar c) := by
  fun_cases String.utf8EncodeChar c <;>
    refine ⟨_, _, rfl, ?_⟩ <;>
    simp only [charSize_eq, UInt8.toNat_ofNat', List.length_cons, List.length_nil] <;>
    split_ifs <;> omega

/-- The string is the encoding of the text. -/
def Encodes (s : List UInt8) (text : List Char) : Prop := s = text.flatMap String.utf8EncodeChar

theorem getStringLen_of_encodes {s : List UInt8} {text : List Char} (h : Encodes s text) :
    getStringLen s = .ok text.length := by
  refine (getStringLen_eq_ok_iff s _).mpr ⟨text.map String.utf8EncodeChar, ?_, ?_, ?_⟩
  · rw [h, List.flatMap_def]
  · intro c hc
    obtain ⟨point, -, rfl⟩ := List.mem_map.mp hc
    exact isChar_utf8EncodeChar point
  · rw [List.length_map]

/-- The call ends without an error and, on valid UTF-8, with the number of code points. -/
def LengthRight (s : List UInt8) : Prop :=
  (∃ n, getStringLen s = .ok n) ∧ ∀ text, Encodes s text → getStringLen s = .ok text.length

/-- **The length of a text.** The call is right exactly on the strings of whole characters. -/
theorem lengthRight_iff_wholeChars (s : List UInt8) : LengthRight s ↔ WholeChars s := by
  constructor
  · rintro ⟨⟨n, hn⟩, -⟩
    obtain ⟨chars, hflat, hchars, -⟩ := (getStringLen_eq_ok_iff s n).mp hn
    exact ⟨chars, hflat, hchars⟩
  · rintro ⟨chars, hflat, hchars⟩
    exact ⟨⟨chars.length, (getStringLen_eq_ok_iff s _).mpr ⟨chars, hflat, hchars, rfl⟩⟩,
      fun text htext => getStringLen_of_encodes htext⟩

/-- The first byte of a Chinese character alone. -/
theorem not_lengthRight_cut_character : ¬ ∀ s, LengthRight s := by
  intro h
  obtain ⟨⟨n, hn⟩, -⟩ := h [0xe4]
  have herror : getStringLen [0xe4] = .error .compareNumberWithNil := by
    have hbyte : stringByte [0xe4] (-1) = some 0xe4 := by decide
    rw [getStringLen, List.length_singleton, Nat.cast_one, loop_of_some 0 (by decide) hbyte]
    exact loop_of_neg _ _ _ (by decide)
  rw [herror] at hn
  cases hn

end SkynetServer.Helper
