import Mathlib.Data.List.Perm.Basic

/-!
# Hash codes of tables

`lua-hash.c` adds up one number for each pair of a table, in the order in which `lua_next` or the iterator of `__pairs` gives
them, and follows nested tables, as keys and as values, to a depth of 16. Tables are references into a heap, so they may be
shared and may contain themselves. `int` wraps, `char` is signed.
-/

namespace SkynetServer.Hash

/-- A float is given by its bits. The values that cannot be hashed are known by the name of their type. -/
inductive LuaValue where
  | integer (v : Int64)
  | float (bits : UInt64)
  | boolean (b : Bool)
  | string (str : List UInt8)
  | table (ref : Nat)
  | other (typename : String)
deriving DecidableEq

abbrev Pairs := List (LuaValue × LuaValue)

/-- `raw` are the pairs in the order of `lua_next`. With a `__pairs` metamethod, `pairs` are the results of the calls of its
iterator, up to the first `nil`. -/
structure LuaTable where
  raw : Pairs
  pairs : Option Pairs := none

abbrev Heap := Nat → LuaTable

inductive HashError where
  | tooDepth
  | wrongType (typename : String)
  | argumentMustBeTable
deriving DecidableEq

def maxDepth : Nat := 16

/-- `(int)(value ^ (value >> 32))`. -/
def fold64 (value : UInt64) : Int32 := (value ^^^ (value >>> 32)).toUInt32.toInt32

/-- `_hash_number` of an integer. -/
def hashInteger (v : Int64) : Int32 := if v ≠ v.toInt32.toInt64 then fold64 v.toUInt64 else v.toInt32

def hashBoolean (b : Bool) : Int32 := if b then 1231 else 1237

/-- The counter is an `int`: it is below `len` for the first `2 ^ 31` bytes only. -/
def hashString (str : List UInt8) : Int32 := (str.take 0x80000000).foldl (fun h c => 31 * h + c.toInt8.toInt32) 0

mutual

def hashOne (heap : Heap) (v : LuaValue) (depth : Nat) : Except HashError Int32 :=
  if depth > maxDepth then .error .tooDepth
  else
    match v with
    | .integer v => .ok (hashInteger v)
    | .float bits => .ok (fold64 bits)
    | .boolean b => .ok (hashBoolean b)
    | .string str => .ok (hashString str)
    | .table ref => hashTable heap ref (depth + 1)
    | .other typename => .error (.wrongType typename)
termination_by 2 * (maxDepth + 2 - depth)

/-- The two loops differ in where the pairs come from. -/
def hashTable (heap : Heap) (ref : Nat) (depth : Nat) : Except HashError Int32 :=
  match (heap ref).pairs with
  | some pairs => do
    let h ← pairs.foldlM (fun h p => do
      let kh ← hashOne heap p.1 depth
      let vh ← hashOne heap p.2 depth
      return h + (kh ^^^ vh)) 0
    return h * Int32.ofNat depth
  | none => do
    let h ← (heap ref).raw.foldlM (fun h p => do
      let kh ← hashOne heap p.1 depth
      let vh ← hashOne heap p.2 depth
      return h + (kh ^^^ vh)) 0
    return h * Int32.ofNat depth
termination_by 2 * (maxDepth + 2 - depth) + 1

end

section

variable {α β ε : Type}

end

/-! ### The order of the pairs -/

end SkynetServer.Hash
