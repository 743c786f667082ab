import Mathlib.Algebra.Order.Ring.Int
import Mathlib.Order.WithBot
import Mathlib.Tactic.Ring

/-!
# Numbers

The numbers of a scripting language that has two kinds of them: integers of 64 bits, whose sums wrap around, and floats of
double precision, whose sums are rounded to the nearest float, on a tie to the even one, and among which are the infinities and
NaN. Two integers have an integer for their sum; else both are made floats. A comparison is one of the exact values, and false
where one of them is NaN. The sign of zero is left out, since no comparison sees it.

Every finite float is a multiple of the smallest one, which is `2 ^ -1074`, and is given by that integer.
-/

namespace Lib

/-! ### Places -/

/-- The places of the numbers in their order: the integers, between the two infinities. -/
def Place : Type := WithBot (WithTop Int)

namespace Place

/-- The order of `Int` is named, so that it is the computable one whatever is imported. -/
instance : LinearOrder Place := @WithBot.linearOrder _ (@WithTop.linearOrder _ Int.instLinearOrder)

def below : Place := (⊥ : WithBot (WithTop Int))

def above : Place := ((⊤ : WithTop Int) : WithBot (WithTop Int))

def ofInt (n : Int) : Place := ((n : WithTop Int) : WithBot (WithTop Int))

theorem ofInt_lt_ofInt {m n : Int} : ofInt m < ofInt n ↔ m < n := WithBot.coe_lt_coe.trans WithTop.coe_lt_coe

theorem ofInt_inj {m n : Int} : ofInt m = ofInt n ↔ m = n := WithBot.coe_inj.trans WithTop.coe_inj

theorem ofInt_ne_below (n : Int) : ofInt n ≠ below := WithBot.coe_ne_bot

theorem ofInt_ne_above (n : Int) : ofInt n ≠ above := WithBot.coe_inj.not.mpr WithTop.coe_ne_top

/-- A place between two integers is an integer. -/
theorem exists_ofInt_of_between {low high : Int} {y : Place} (hlow : ofInt low < y) (hhigh : y < ofInt high) :
    ∃ n : Int, y = ofInt n ∧ low < n ∧ n < high := by
  obtain ⟨z, rfl⟩ := WithBot.ne_bot_iff_exists.mp (ne_bot_of_gt (α := WithBot (WithTop Int)) hlow)
  have hz := WithBot.coe_lt_coe.mp hhigh
  obtain ⟨n, rfl⟩ := WithTop.ne_top_iff_exists.mp (ne_top_of_lt hz)
  exact ⟨n, rfl, ofInt_lt_ofInt.mp hlow, ofInt_lt_ofInt.mp hhigh⟩

end Place

/-! ### Floats -/

/-- The multiples of the smallest float that are floats: 53 bits, with zeros behind them. -/
def IsDouble (units : Int) : Prop := units.natAbs < 2 ^ 2098 ∧ ∃ m q, m < 2 ^ 53 ∧ units.natAbs = m * 2 ^ q

inductive Double where
  | nan
  | infinite (negative : Bool)
  | finite (units : Int) (h : IsDouble units)
deriving DecidableEq

/-- `n` without its last `q` bits, to the nearest number and from the middle to the even one. -/
def shiftRound (n q : Nat) : Nat :=
  if 2 * (n % 2 ^ q) < 2 ^ q then n / 2 ^ q
  else if 2 ^ q < 2 * (n % 2 ^ q) then n / 2 ^ q + 1
  else n / 2 ^ q + n / 2 ^ q % 2

theorem shiftRound_le (n q : Nat) : shiftRound n q ≤ n / 2 ^ q + 1 := by
  unfold shiftRound
  split_ifs <;> omega

theorem shiftRound_log2_le (n : Nat) : shiftRound n (n.log2 + 1 - 53) ≤ 2 ^ 53 := by
  have hlt : n / 2 ^ (n.log2 + 1 - 53) < 2 ^ 53 := by
    rw [Nat.div_lt_iff_lt_mul (Nat.two_pow_pos _), ← Nat.pow_add]
    exact Nat.lt_log2_self.trans_le (Nat.pow_le_pow_right (by decide) (by omega))
  have hle := shiftRound_le n (n.log2 + 1 - 53)
  omega

theorem isDouble_mul_pow {n : Int} {m q : Nat} (hn : n.natAbs ≤ 1) (hm : m ≤ 2 ^ 53) (hlt : m * 2 ^ q < 2 ^ 2098) :
    IsDouble (n * (m * 2 ^ q : Nat)) := by
  rw [IsDouble, Int.natAbs_mul, Int.natAbs_natCast]
  have hle : n.natAbs * (m * 2 ^ q) ≤ m * 2 ^ q := by simpa using Nat.mul_le_mul_right (m * 2 ^ q) hn
  refine ⟨hle.trans_lt hlt, ?_⟩
  rcases Nat.le_one_iff_eq_zero_or_eq_one.mp hn with hzero | hone
  · exact ⟨0, 0, by decide, by simp [hzero]⟩
  · rw [hone, Nat.one_mul]
    rcases hm.eq_or_lt with rfl | hm
    · exact ⟨2 ^ 52, q + 1, by decide, by rw [Nat.pow_succ']; ring⟩
    · exact ⟨m, q, hm, rfl⟩

theorem natAbs_sign_le (n : Int) : n.sign.natAbs ≤ 1 := by
  rw [Int.natAbs_sign]
  split <;> decide

namespace Double

/-- The float 1. -/
def one : Int := (2 ^ 1074 : Nat)

/-- The float for a multiple of the smallest one. -/
def round (n : Int) : Double :=
  let q := n.natAbs.log2 + 1 - 53
  if h : shiftRound n.natAbs q * 2 ^ q < 2 ^ 2098 then
    .finite (n.sign * (shiftRound n.natAbs q * 2 ^ q : Nat)) (isDouble_mul_pow (natAbs_sign_le n) (shiftRound_log2_le _) h)
  else .infinite (n < 0)

/-- The sum, of which only infinities of different signs and NaN make NaN. -/
def add : Double → Double → Double
  | .finite a _, .finite b _ => round (a + b)
  | .infinite s, .infinite t => if s = t then .infinite s else .nan
  | .infinite s, .finite _ _ => .infinite s
  | .finite _ _, .infinite t => .infinite t
  | _, _ => .nan

def neg : Double → Double
  | .nan => .nan
  | .infinite s => .infinite !s
  | .finite a h => .finite (-a) (by rwa [IsDouble, Int.natAbs_neg])

/-- The floor of the half; where half of the smallest float would be needed, the half is rounded first. -/
def half : Double → Double
  | .finite a _ => round ((a / 2 + a % 2 * (a / 2 % 2)) / one * one)
  | x => x

/-- The place of the float in the order, if it has one. -/
def key : Double → Option Place
  | .nan => none
  | .infinite true => some .below
  | .infinite false => some .above
  | .finite a _ => some (.ofInt a)

end Double

/-! ### Numbers -/

inductive Number where
  | integer (i : Int64)
  | double (x : Double)
deriving DecidableEq

namespace Number

instance (n : Nat) : OfNat Number n := ⟨integer (Int64.ofNat n)⟩

def toDouble : Number → Double
  | integer i => .round (i.toInt * Double.one)
  | double x => x

instance : Add Number where
  add
    | integer i, integer j => integer (i + j)
    | a, b => double (a.toDouble.add b.toDouble)

instance : Sub Number where
  sub
    | integer i, integer j => integer (i - j)
    | a, b => double (a.toDouble.add b.toDouble.neg)

/-- `a // 2`. -/
def half : Number → Number
  | integer i => integer (.ofInt (i.toInt / 2))
  | double x => double x.half

/-- The exact value of a finite number, in units of the smallest float. -/
def units? : Number → Option Int
  | integer i => some (i.toInt * Double.one)
  | double (.finite a _) => some a
  | double _ => none

/-- The place of the number in the order, if it has one. -/
def key : Number → Option Place
  | integer i => some (.ofInt (i.toInt * Double.one))
  | double x => x.key

def IsNan (a : Number) : Prop := a.key = none

instance (a : Number) : Decidable a.IsNan := inferInstanceAs (Decidable (_ = _))

instance : LT Number := ⟨fun a b => ∃ x ∈ a.key, ∃ y ∈ b.key, x < y⟩

instance : LE Number := ⟨fun a b => ∃ x ∈ a.key, ∃ y ∈ b.key, x ≤ y⟩

instance (a b : Number) : Decidable (a < b) := inferInstanceAs (Decidable (∃ x ∈ a.key, ∃ y ∈ b.key, x < y))

instance (a b : Number) : Decidable (a ≤ b) := inferInstanceAs (Decidable (∃ x ∈ a.key, ∃ y ∈ b.key, x ≤ y))

variable {a b c : Number}

theorem lt_of_le_of_lt (hab : a ≤ b) (hbc : b < c) : a < c := by
  obtain ⟨x, hx, y, hy, hxy⟩ := hab
  obtain ⟨y', hy', z, hz, hyz⟩ := hbc
  obtain rfl := Option.mem_unique hy hy'
  exact ⟨x, hx, z, hz, hxy.trans_lt hyz⟩

theorem lt_of_lt_of_le (hab : a < b) (hbc : b ≤ c) : a < c := by
  obtain ⟨x, hx, y, hy, hxy⟩ := hab
  obtain ⟨y', hy', z, hz, hyz⟩ := hbc
  obtain rfl := Option.mem_unique hy hy'
  exact ⟨x, hx, z, hz, hxy.trans_le hyz⟩

theorem le_of_lt (h : a < b) : a ≤ b := by
  obtain ⟨x, hx, y, hy, hxy⟩ := h
  exact ⟨x, hx, y, hy, hxy.le⟩

theorem lt_trans (hab : a < b) (hbc : b < c) : a < c := lt_of_le_of_lt (le_of_lt hab) hbc

theorem le_trans (hab : a ≤ b) (hbc : b ≤ c) : a ≤ c := by
  obtain ⟨x, hx, y, hy, hxy⟩ := hab
  obtain ⟨y', hy', z, hz, hyz⟩ := hbc
  obtain rfl := Option.mem_unique hy hy'
  exact ⟨x, hx, z, hz, hxy.trans hyz⟩

theorem not_lt_of_le (h : a ≤ b) : ¬ b < a := by
  intro hlt
  obtain ⟨x, hx, x', hx', hxx⟩ := lt_of_le_of_lt h hlt
  obtain rfl := Option.mem_unique hx hx'
  exact lt_irrefl x hxx

theorem not_lt_or (a b : Number) : ¬ a < b ∨ ¬ b < a := by
  by_contra h
  push Not at h
  exact not_lt_of_le (le_of_lt h.1) h.2

theorem not_isNan_iff : ¬ a.IsNan ↔ ∃ x, a.key = some x := Option.ne_none_iff_exists'

theorem not_isNan_of_le (h : a ≤ b) : ¬ a.IsNan ∧ ¬ b.IsNan := by
  obtain ⟨x, hx, y, hy, -⟩ := h
  exact ⟨not_isNan_iff.mpr ⟨x, hx⟩, not_isNan_iff.mpr ⟨y, hy⟩⟩

/-- Without NaN the order is linear. -/
theorem not_lt (ha : ¬ a.IsNan) (hb : ¬ b.IsNan) : ¬ b < a ↔ a ≤ b := by
  refine ⟨fun h => ?_, not_lt_of_le⟩
  obtain ⟨x, hx⟩ := not_isNan_iff.mp ha
  obtain ⟨y, hy⟩ := not_isNan_iff.mp hb
  exact ⟨x, hx, y, hy, le_of_not_gt fun hlt => h ⟨y, hy, x, hx, hlt⟩⟩

theorem le_self (h : ¬ a.IsNan) : a ≤ a := by
  obtain ⟨x, hx⟩ := not_isNan_iff.mp h
  exact ⟨x, hx, x, hx, le_rfl⟩

/-! ### Intervals around a number -/

/-- The distance of two finite numbers is less than a third one. -/
def Within (r a b : Number) : Prop := ∃ d ∈ r.units?, ∃ x ∈ a.units?, ∃ y ∈ b.units?, (x - y).natAbs < d

instance (r a b : Number) : Decidable (Within r a b) :=
  inferInstanceAs (Decidable (∃ d ∈ r.units?, ∃ x ∈ a.units?, ∃ y ∈ b.units?, (x - y).natAbs < d))

theorem within_comm {r : Number} : Within r a b ↔ Within r b a := by
  have himp : ∀ a b, Within r a b → Within r b a := by
    rintro a b ⟨d, hd, x, hx, y, hy, h⟩
    exact ⟨d, hd, y, hy, x, hx, by omega⟩
  exact ⟨himp a b, himp b a⟩

/-- The two ends `a - r` and `a + r` are computed without rounding and without overflow. -/
def ExactEnds (r a : Number) : Prop :=
  ∃ d ∈ r.units?, ∃ x ∈ a.units?, x - d ∈ (a - r).units? ∧ x + d ∈ (a + r).units?

instance (r a : Number) : Decidable (ExactEnds r a) :=
  inferInstanceAs (Decidable (∃ d ∈ r.units?, ∃ x ∈ a.units?, x - d ∈ (a - r).units? ∧ x + d ∈ (a + r).units?))

theorem key_eq_some_iff {x : Int} : a.key = some (.ofInt x) ↔ x ∈ a.units? := by
  cases a with
  | integer i => simp [key, units?, Place.ofInt_inj]
  | double y =>
    cases y with
    | finite b hb => simp [key, units?, Double.key, Place.ofInt_inj]
    | infinite negative =>
      cases negative <;> simp [key, units?, Double.key, (Place.ofInt_ne_below x).symm, (Place.ofInt_ne_above x).symm]
    | nan => simp [key, units?, Double.key]

/-- Integers whose sums do not wrap around have exact ends. -/
theorem exactEnds_integer {i j : Int64} (hsub : -0x8000000000000000 ≤ j.toInt - i.toInt ∧ j.toInt - i.toInt < 0x8000000000000000)
    (hadd : -0x8000000000000000 ≤ j.toInt + i.toInt ∧ j.toInt + i.toInt < 0x8000000000000000) :
    ExactEnds (integer i) (integer j) := by
  refine ⟨_, rfl, _, rfl, ?_, ?_⟩
  · show some ((j - i).toInt * Double.one) = _
    rw [Int64.toInt_sub, Int.bmod_eq_of_le (by omega) (by omega), Int.sub_mul]
  · show some ((j + i).toInt * Double.one) = _
    rw [Int64.toInt_add, Int.bmod_eq_of_le (by omega) (by omega), Int.add_mul]

/-- Where the ends are exact, what lies between them is what is near. -/
theorem between_iff_within {r : Number} (h : ExactEnds r a) : a - r < b ∧ b < a + r ↔ Within r a b := by
  obtain ⟨d, hd, x, hx, hsub, hadd⟩ := h
  constructor
  · rintro ⟨⟨low, hlow, y, hy, hlt⟩, y', hy', high, hhigh, hlt'⟩
    obtain rfl := Option.mem_unique hy hy'
    obtain rfl := Option.mem_unique (key_eq_some_iff.mpr hsub) hlow
    obtain rfl := Option.mem_unique (key_eq_some_iff.mpr hadd) hhigh
    obtain ⟨n, rfl, hn, hn'⟩ := Place.exists_ofInt_of_between hlt hlt'
    exact ⟨d, hd, x, hx, n, key_eq_some_iff.mp hy, by omega⟩
  · rintro ⟨d', hd', x', hx', n, hn, hlt⟩
    obtain rfl := Option.mem_unique hd hd'
    obtain rfl := Option.mem_unique hx hx'
    exact ⟨⟨_, key_eq_some_iff.mpr hsub, _, key_eq_some_iff.mpr hn, Place.ofInt_lt_ofInt.mpr (by omega)⟩,
      _, key_eq_some_iff.mpr hn, _, key_eq_some_iff.mpr hadd, Place.ofInt_lt_ofInt.mpr (by omega)⟩

end Number

end Lib
