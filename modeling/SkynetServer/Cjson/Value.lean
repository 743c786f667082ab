import SkynetServer.Cjson.Strbuf

/-!
# Values, numbers and the configuration

A Lua value as `lua_cjson.c` meets it. A table is an address, and the heap gives its pairs in the order in which `lua_next`
comes to them, so that tables may be shared and may contain themselves. What a call of `json_decode` builds is new and is
reached in one way only; it is a tree.

The numbers are the doubles of C, with the functions of `fpconv.c` on them. Nothing is computed with them here, and what the
code relies on is collected in `Numbers.Lawful`.
-/

namespace SkynetServer.Cjson

inductive LuaType where
  | nil
  | boolean
  | lightuserdata
  | number
  | string
  | table
  | function
  | userdata
  | thread
deriving DecidableEq

def LuaType.typename : LuaType → String
  | nil => "nil"
  | boolean => "boolean"
  | lightuserdata => "userdata"
  | number => "number"
  | string => "string"
  | table => "table"
  | function => "function"
  | userdata => "userdata"
  | thread => "thread"

inductive Value (δ : Type) where
  | nil
  | boolean (b : Bool)
  /-- A pointer, or `NULL`. -/
  | lightuserdata (p : Option Nat)
  | number (n : δ)
  | string (s : List UInt8)
  | table (t : Nat)
  | function
  | userdata
  | thread
deriving DecidableEq

def Value.type {δ : Type} : Value δ → LuaType
  | nil => .nil
  | boolean _ => .boolean
  | lightuserdata _ => .lightuserdata
  | number _ => .number
  | string _ => .string
  | table _ => .table
  | function => .function
  | userdata => .userdata
  | thread => .thread

abbrev Heap (δ : Type) := Nat → List (Value δ × Value δ)

/-- The keys of the tables that `json_decode` makes. -/
inductive Key where
  | index (i : Nat)
  | string (s : List UInt8)
deriving DecidableEq

/-- What `json_decode` returns. `null` is the light userdata `NULL`. -/
inductive Tree (δ : Type) where
  | null
  | boolean (b : Bool)
  | number (n : δ)
  | string (s : List UInt8)
  | table (pairs : List (Key × Tree δ))

/-! ### Numbers -/

inductive Kind where
  | finite
  | nan
  | infinite (negative : Bool)
deriving DecidableEq

structure Numbers (δ : Type) where
  kind : δ → Kind
  /-- The integer that a finite number is, if it is one. -/
  toInteger : δ → Option Int
  /-- `fpconv_g_fmt`, with the precision first. -/
  gFmt : Nat → δ → List UInt8
  /-- `fpconv_strtod`: the number, and how many bytes have been read. -/
  strtod : List UInt8 → δ × Nat

def fpconvGFmtBufsize : Nat := 32

/-- The bytes of which a printed number consists. -/
def isNumeral (b : UInt8) : Bool :=
  (48 ≤ b && b ≤ 57) || b == 43 || b == 45 || b == 46 || b == 101

/-- What is relied on, for the precisions that can be configured: `%g` prints a number which `strtod` reads up to the first
byte that cannot belong to one, and `strtod` does not go past a `NUL`. -/
structure Numbers.Lawful {δ : Type} (nums : Numbers δ) : Prop where
  length_gFmt : ∀ precision ≤ 14, ∀ n, nums.kind n = .finite → (nums.gFmt precision n).length < fpconvGFmtBufsize
  isNumeral_gFmt : ∀ precision ≤ 14, ∀ n, nums.kind n = .finite → ∀ b ∈ nums.gFmt precision n, isNumeral b
  /-- A zero at the beginning is the only digit before the point. -/
  head_gFmt : ∀ precision ≤ 14, ∀ n, nums.kind n = .finite → ∃ sign digit rest,
    nums.gFmt precision n = sign ++ digit :: rest ∧ sign ∈ [[], [45]] ∧ 48 ≤ digit ∧ digit ≤ 57 ∧
      (digit = 48 → ∀ b ∈ rest.head?, b = 46 ∨ b = 101)
  strtod_gFmt : ∀ precision ≤ 14, ∀ n, nums.kind n = .finite → ∀ b rest, b ∈ [0, 9, 10, 13, 32, 44, 93, 125] →
    nums.strtod (nums.gFmt precision n ++ b :: rest) =
      ((nums.strtod (nums.gFmt precision n ++ [0])).1, (nums.gFmt precision n).length)
  strtod_le : ∀ p, (nums.strtod p).2 ≤ (p.takeWhile (· ≠ 0)).length

/-- A small system of numbers, with the digits alone. -/
def digits : Numbers (Fin 10) where
  kind _ := .finite
  toInteger n := some n.val
  gFmt _ n := [48 + UInt8.ofNat n.val]
  strtod
    | [] => (0, 0)
    | b :: _ => if 48 ≤ b ∧ b ≤ 57 then (Fin.ofNat 10 (b.toNat - 48), 1) else (0, 0)

theorem isDigit_gFmt_digits : ∀ n : Fin 10, 48 ≤ 48 + UInt8.ofNat n.val ∧ 48 + UInt8.ofNat n.val ≤ 57 := by
  decide

theorem lawful_digits : digits.Lawful where
  length_gFmt _ _ n _ := by
    show 1 < fpconvGFmtBufsize
    decide
  isNumeral_gFmt _ _ n _ := by
    intro b hb
    obtain rfl : b = 48 + UInt8.ofNat n.val := List.mem_singleton.mp hb
    simp [isNumeral, isDigit_gFmt_digits n]
  head_gFmt _ _ n _ := by
    obtain ⟨hlow, hhigh⟩ := isDigit_gFmt_digits n
    exact ⟨[], 48 + UInt8.ofNat n.val, [], rfl, by simp, hlow, hhigh, by simp⟩
  strtod_gFmt _ _ n _ b rest _ := by
    simp [digits, isDigit_gFmt_digits n]
  strtod_le p := by
    cases p with
    | nil => exact Nat.le_refl 0
    | cons b p =>
      by_cases hb : 48 ≤ b ∧ b ≤ 57
      · have hzero : b ≠ 0 := by
          rintro rfl
          exact absurd hb.1 (by decide)
        simp [digits, hb, hzero]
      · simp [digits, hb]

/-! ### Configuration -/

inductive InvalidNumbers where
  | off
  | on
  | null
deriving DecidableEq

structure Config where
  encodeSparseConvert : Bool
  encodeSparseRatio : Nat
  encodeSparseSafe : Nat
  encodeMaxDepth : Nat
  encodeInvalidNumbers : InvalidNumbers
  encodeNumberPrecision : Nat
  encodeKeepBuffer : Bool
  decodeInvalidNumbers : Bool
  decodeMaxDepth : Nat
  /-- `json_cfg_encode_number_precision` refuses others. -/
  precision_le : encodeNumberPrecision ≤ 14

/-- `json_create_config`. -/
def Config.create : Config where
  encodeSparseConvert := false
  encodeSparseRatio := 2
  encodeSparseSafe := 10
  encodeMaxDepth := 1000
  encodeInvalidNumbers := .off
  encodeNumberPrecision := 14
  encodeKeepBuffer := true
  decodeInvalidNumbers := true
  decodeMaxDepth := 1000
  precision_le := Nat.le_refl 14

/-- The configuration of `db/packer.lua`: `cjson.encode_sparse_array(true, 1, 1)`. -/
def Config.packer : Config :=
  { Config.create with encodeSparseConvert := true, encodeSparseRatio := 1, encodeSparseSafe := 1 }

end SkynetServer.Cjson
