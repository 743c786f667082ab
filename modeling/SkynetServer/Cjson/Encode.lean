import SkynetServer.Cjson.Value

/-!
# Encoding

`json_encode` writes into a buffer that it keeps from one call to the next. An error leaves the call where it stands, with
what has been written so far in the buffer. `Value.text` says what is written, without the buffer: every call writes just
that, if it is not longer than a buffer can be, whatever the calls before it have left behind.
-/

namespace SkynetServer.Cjson

inductive EncodeError where
  /-- The end of the process, or a write that C does not define. -/
  | fault
  /-- `Cannot serialise %s: %s` -/
  | serialise (type : LuaType) (reason : String)
  /-- `Cannot serialise, excessive nesting (%d)` -/
  | nesting (depth : Nat)
deriving DecidableEq

/-- The buffer after a part of the value, or the error with the buffer as it is then. -/
abbrev Encoding := Except (EncodeError × Strbuf) Strbuf

def written (json : Strbuf) : Option Strbuf → Encoding
  | some json' => .ok json'
  | none => .error (.fault, json)

def hexDigit (n : UInt8) : UInt8 := if n < 10 then 48 + n else 87 + n

def char2escape (c : UInt8) : Option (List UInt8) :=
  if c = 8 then some [92, 98]
  else if c = 9 then some [92, 116]
  else if c = 10 then some [92, 110]
  else if c = 12 then some [92, 102]
  else if c = 13 then some [92, 114]
  else if c < 32 ∨ c = 127 then some [92, 117, 48, 48, hexDigit (c / 16), hexDigit (c % 16)]
  else if c = 34 ∨ c = 47 ∨ c = 92 then some [92, c]
  else none

def appendEscaped (json : Strbuf) (c : UInt8) : Option Strbuf :=
  match char2escape c with
  | some escstr => json.appendString escstr
  | none => json.appendCharUnsafe c

def jsonAppendString (json : Strbuf) (str : List UInt8) : Option Strbuf := do
  let json ← json.ensureEmptyLength (toInt (str.length * 6 + 2))
  let json ← json.appendCharUnsafe 34
  let json ← str.foldlM appendEscaped json
  json.appendCharUnsafe 34

section

variable {δ : Type} (cfg : Config) (nums : Numbers δ) (heap : Heap δ)

/-! ### Arrays and objects -/

/-- `floor(k) == k && k >= 1`, which infinity passes too. -/
def isIndex (k : δ) : Bool :=
  match nums.kind k with
  | .finite =>
    match nums.toInteger k with
    | some i => 1 ≤ i
    | none => false
  | .infinite negative => !negative
  | .nan => false

/-- `if (k > max) max = k`. A number that no `int` can be is not converted. -/
def largerIndex (max : Nat) (k : δ) : Option Nat :=
  match nums.kind k, nums.toInteger k with
  | .finite, some i => if i ≤ max then some max else if i ≤ intMax then some i.toNat else none
  | _, _ => none

/-- The loop of `lua_array_length`: the largest index and the number of items, or `none` if a key is not an index. -/
def scanIndices : List (Value δ × Value δ) → Nat → Nat → Option (Option (Nat × Nat))
  | [], max, items => some (some (max, items))
  | (.number k, _) :: pairs, max, items => do
    if isIndex nums k then
      let max ← largerIndex nums max k
      scanIndices pairs max (items + 1)
    else some none
  | _ :: _, _, _ => some none

/-- The size of an array, or `none`, in C `-1`, for an object. -/
def luaArrayLength (pairs : List (Value δ × Value δ)) : Except EncodeError (Option Nat) :=
  match scanIndices nums pairs 0 0 with
  | none => .error .fault
  | some none => .ok none
  | some (some (max, items)) =>
    if cfg.encodeSparseRatio > 0 ∧ max > items * cfg.encodeSparseRatio ∧ max > cfg.encodeSparseSafe then
      if cfg.encodeSparseConvert then .ok none
      else .error (.serialise .table "excessively sparse array")
    else .ok (some max)

/-- `lua_rawgeti`. -/
def luaRawgeti (pairs : List (Value δ × Value δ)) (i : Nat) : Value δ :=
  match pairs.find? fun pair => match pair.1 with
    | .number k => nums.toInteger k == some (i : Int)
    | _ => false with
  | some pair => pair.2
  | none => .nil

/-! ### The buffer -/

def jsonAppendNumber (json : Strbuf) (num : δ) : Encoding :=
  let finite := do
    let json ← json.ensureEmptyLength fpconvGFmtBufsize
    let str := nums.gFmt cfg.encodeNumberPrecision num
    -- `snprintf` writes the terminator too
    if json.length + str.length < json.size then some { json with bytes := json.bytes ++ str } else none
  match nums.kind num, cfg.encodeInvalidNumbers with
  | .finite, _ => written json finite
  | _, .off => .error (.serialise .number "must not be NaN or Infinity", json)
  | .nan, .on => written json (json.appendMem (['N', 'a', 'N'].map Char.toUInt8))
  | .infinite true, .on =>
    written json (json.appendMem (['-', 'I', 'n', 'f', 'i', 'n', 'i', 't', 'y'].map Char.toUInt8))
  | .infinite false, .on => written json (json.appendMem (['I', 'n', 'f', 'i', 'n', 'i', 't', 'y'].map Char.toUInt8))
  | _, .null => written json (json.appendMem (['n', 'u', 'l', 'l'].map Char.toUInt8))

/-- The comma of the loops over the elements of an array and over the pairs of an object. -/
def appendParts : Bool → List (Strbuf → Encoding) → Strbuf → Encoding
  | _, [], json => .ok json
  | comma, part :: parts, json => do
    let json ← if comma then written json (json.appendChar 44) else .ok json
    let json ← part json
    appendParts true parts json

def jsonAppendArray (appendData : Value δ → Strbuf → Encoding) (pairs : List (Value δ × Value δ)) (arrayLength : Nat)
    (json : Strbuf) : Encoding := do
  let json ← written json (json.appendChar 91)
  let json ← appendParts false ((List.range' 1 arrayLength).map fun i => appendData (luaRawgeti nums pairs i)) json
  written json (json.appendChar 93)

def jsonAppendKey (key : Value δ) (json : Strbuf) : Encoding :=
  match key with
  | .number n => do
    let json ← written json (json.appendChar 34)
    let json ← jsonAppendNumber cfg nums json n
    written json (json.appendMem [34, 58])
  | .string s => do
    let json ← written json (jsonAppendString json s)
    written json (json.appendChar 58)
  | _ => .error (.serialise key.type "table key must be a number or string", json)

def jsonAppendObject (appendData : Value δ → Strbuf → Encoding) (pairs : List (Value δ × Value δ)) (json : Strbuf) :
    Encoding := do
  let json ← written json (json.appendChar 123)
  let parts := pairs.map fun pair json => do
    let json ← jsonAppendKey cfg nums pair.1 json
    appendData pair.2 json
  let json ← appendParts false parts json
  written json (json.appendChar 125)

/-- The recursion goes at most as deep as the configuration allows; the rounds stand for what is left of it. -/
def jsonAppendData : Nat → Nat → Value δ → Strbuf → Encoding
  | _, _, .string s, json => written json (jsonAppendString json s)
  | _, _, .number n, json => jsonAppendNumber cfg nums json n
  | _, _, .boolean true, json => written json (json.appendMem (['t', 'r', 'u', 'e'].map Char.toUInt8))
  | _, _, .boolean false, json => written json (json.appendMem (['f', 'a', 'l', 's', 'e'].map Char.toUInt8))
  | 0, _, .table _, json => .error (.fault, json)
  | rounds + 1, currentDepth, .table t, json =>
    if currentDepth + 1 ≤ cfg.encodeMaxDepth then
      match luaArrayLength cfg nums (heap t) with
      | .error e => .error (e, json)
      | .ok len =>
        let appendData := jsonAppendData rounds (currentDepth + 1)
        if len.getD 0 > 0 then jsonAppendArray nums appendData (heap t) (len.getD 0) json
        else jsonAppendObject cfg nums appendData (heap t) json
    else .error (.nesting (currentDepth + 1), json)
  | _, _, .nil, json => written json (json.appendMem (['n', 'u', 'l', 'l'].map Char.toUInt8))
  | _, _, .lightuserdata none, json => written json (json.appendMem (['n', 'u', 'l', 'l'].map Char.toUInt8))
  | _, _, value, json => .error (.serialise value.type "type not supported", json)

/-- A call, with the buffer that the configuration keeps. -/
def jsonEncode (kept : Strbuf) (value : Value δ) : Except EncodeError (List UInt8) × Strbuf :=
  let start := if cfg.encodeKeepBuffer then some kept.reset else Strbuf.init 0
  match start with
  | none => (.error .fault, kept)
  | some json =>
    match jsonAppendData cfg nums heap (cfg.encodeMaxDepth + 1) 0 value json with
    | .ok json' => (.ok json'.bytes, if cfg.encodeKeepBuffer then json' else kept)
    | .error (e, json') => (.error e, if cfg.encodeKeepBuffer then json' else kept)

end

end SkynetServer.Cjson
