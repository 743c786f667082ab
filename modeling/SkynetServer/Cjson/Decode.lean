import SkynetServer.Cjson.Value

/-!
# Decoding

`json_decode` reads a Lua string, which ends in a `NUL` that does not belong to it. A pointer into the string is what there
is from it on, with that `NUL`; a read behind it fails. The strings are built in a temporary buffer that is as long as the
text and is written to without a check. The rounds of the loops and of the recursion are there for Lean: a call that runs out
of them fails like one that reads or writes where it must not.
-/

namespace SkynetServer.Cjson

inductive DecodeError where
  | fault
  /-- `JSON parser does not support UTF-16 or UTF-32` -/
  | encoding
  /-- `Expected %s but found %s at character %d` -/
  | expected (exp found : String) (character : Nat)
  /-- `Found too many nested data structures (%d) at character %d` -/
  | nesting (depth character : Nat)
deriving DecidableEq

abbrev Decoding (α : Type) := Except DecodeError α

/-- `p[i]`. -/
def read (p : List UInt8) (i : Nat) : Decoding UInt8 :=
  match p[i]? with
  | some b => .ok b
  | none => .error .fault

def stored : Option Strbuf → Decoding Strbuf
  | some tmp => .ok tmp
  | none => .error .fault

/-! ### Tokens -/

inductive TokenType where
  | objBegin
  | objEnd
  | arrBegin
  | arrEnd
  | string
  | number
  | boolean
  | null
  | colon
  | comma
  | endText
  | whitespace
  | error
  | unknown
deriving DecidableEq

def jsonTokenTypeName : TokenType → String
  | .objBegin => "T_OBJ_BEGIN"
  | .objEnd => "T_OBJ_END"
  | .arrBegin => "T_ARR_BEGIN"
  | .arrEnd => "T_ARR_END"
  | .string => "T_STRING"
  | .number => "T_NUMBER"
  | .boolean => "T_BOOLEAN"
  | .null => "T_NULL"
  | .colon => "T_COLON"
  | .comma => "T_COMMA"
  | .endText => "T_END"
  | .whitespace => "T_WHITESPACE"
  | .error => "T_ERROR"
  | .unknown => "T_UNKNOWN"

/-- A token with its value. -/
inductive Token (δ : Type) where
  | objBegin
  | objEnd
  | arrBegin
  | arrEnd
  | string (s : List UInt8)
  | number (n : δ)
  | boolean (b : Bool)
  | null
  | colon
  | comma
  | endText
  | error (message : String)

def Token.type {δ : Type} : Token δ → TokenType
  | objBegin => .objBegin
  | objEnd => .objEnd
  | arrBegin => .arrBegin
  | arrEnd => .arrEnd
  | string _ => .string
  | number _ => .number
  | boolean _ => .boolean
  | null => .null
  | colon => .colon
  | comma => .comma
  | endText => .endText
  | error _ => .error

/-- The table of `json_create_config`. -/
def ch2token (ch : UInt8) : TokenType :=
  if ch = 123 then .objBegin
  else if ch = 125 then .objEnd
  else if ch = 91 then .arrBegin
  else if ch = 93 then .arrEnd
  else if ch = 44 then .comma
  else if ch = 58 then .colon
  else if ch = 0 then .endText
  else if ch = 32 ∨ ch = 9 ∨ ch = 10 ∨ ch = 13 then .whitespace
  -- f, i, I, n, N, t, ", + and -
  else if ch ∈ [102, 105, 73, 110, 78, 116, 34, 43, 45] ∨ (48 ≤ ch ∧ ch ≤ 57) then .unknown
  else .error

/-- The other table, with 0 for an error. -/
def escape2char (ch : UInt8) : UInt8 :=
  if ch = 34 ∨ ch = 92 ∨ ch = 47 then ch
  else if ch = 98 then 8
  else if ch = 116 then 9
  else if ch = 110 then 10
  else if ch = 102 then 12
  else if ch = 114 then 13
  else if ch = 117 then 117
  else 0

structure Parse where
  /-- The length of the text with its `NUL`. -/
  data : Nat
  ptr : List UInt8
  tmp : Strbuf
  currentDepth : Nat

/-- `json->ptr - json->data`. -/
def Parse.index (json : Parse) : Nat := json.data - json.ptr.length

/-! ### Escapes -/

def hexdigit2int (hex : UInt8) : Option Nat :=
  if 48 ≤ hex ∧ hex ≤ 57 then some (hex.toNat - 48)
  else
    let hex := hex ||| 0x20
    if 97 ≤ hex ∧ hex ≤ 102 then some (10 + hex.toNat - 97) else none

def decodeHex4 (hex : List UInt8) : Decoding (Option Nat) := do
  let some d0 := hexdigit2int (← read hex 0) | return none
  let some d1 := hexdigit2int (← read hex 1) | return none
  let some d2 := hexdigit2int (← read hex 2) | return none
  let some d3 := hexdigit2int (← read hex 3) | return none
  return some (d0 <<< 12 + d1 <<< 8 + d2 <<< 4 + d3)

def codepointToUtf8 (codepoint : Nat) : List UInt8 :=
  if codepoint ≤ 0x7F then [codepoint.toUInt8]
  else if codepoint ≤ 0x7FF then [(codepoint >>> 6 ||| 0xC0).toUInt8, (codepoint &&& 0x3F ||| 0x80).toUInt8]
  else if codepoint ≤ 0xFFFF then
    [(codepoint >>> 12 ||| 0xE0).toUInt8, (codepoint >>> 6 &&& 0x3F ||| 0x80).toUInt8,
      (codepoint &&& 0x3F ||| 0x80).toUInt8]
  else if codepoint ≤ 0x1FFFFF then
    [(codepoint >>> 18 ||| 0xF0).toUInt8, (codepoint >>> 12 &&& 0x3F ||| 0x80).toUInt8,
      (codepoint >>> 6 &&& 0x3F ||| 0x80).toUInt8, (codepoint &&& 0x3F ||| 0x80).toUInt8]
  else []

/-- The second escape of a surrogate pair. -/
def lowSurrogate (ptr : List UInt8) : Decoding (Option Nat) := do
  if (← read ptr 0) ≠ 92 then return none
  if (← read ptr 1) ≠ 117 then return none
  let some surrogateLow ← decodeHex4 (ptr.drop 2) | return none
  if surrogateLow &&& 0xFC00 ≠ 0xDC00 then return none
  return some surrogateLow

/-- The code point of the escape at the pointer, and how long the escape is; nothing if it is not one. -/
def unicodeEscape (ptr : List UInt8) : Decoding (Option (Nat × Nat)) := do
  let some codepoint ← decodeHex4 (ptr.drop 2) | return none
  if codepoint &&& 0xF800 = 0xD800 then
    -- the first surrogate must be a high one
    if codepoint &&& 0x400 ≠ 0 then return none
    let some surrogateLow ← lowSurrogate (ptr.drop 6) | return none
    return some (((codepoint &&& 0x3FF) <<< 10 ||| (surrogateLow &&& 0x3FF)) + 0x10000, 12)
  return some (codepoint, 6)

def jsonAppendUnicodeEscape (ptr : List UInt8) (tmp : Strbuf) : Decoding (Option (List UInt8 × Strbuf)) := do
  let some (codepoint, escapeLen) ← unicodeEscape ptr | return none
  let utf8 := codepointToUtf8 codepoint
  if utf8.isEmpty then return none
  let tmp ← stored (tmp.appendMemUnsafe utf8)
  return some (ptr.drop escapeLen, tmp)

/-- The loop of `json_next_string_token`, to behind the closing quote, or to an error with its message. -/
def stringLoop : Nat → List UInt8 → Strbuf → Decoding (Option String × List UInt8 × Strbuf)
  | 0, _, _ => .error .fault
  | rounds + 1, ptr, tmp => do
    let ch ← read ptr 0
    if ch = 34 then return (none, ptr.drop 1, tmp)
    if ch = 0 then return (some "unexpected end of string", ptr, tmp)
    if ch = 92 then
      let ch := escape2char (← read ptr 1)
      if ch = 117 then
        let some (ptr', tmp) ← jsonAppendUnicodeEscape ptr tmp | return (some "invalid unicode escape code", ptr, tmp)
        stringLoop rounds ptr' tmp
      else if ch = 0 then return (some "invalid escape code", ptr, tmp)
      else
        let tmp ← stored (tmp.appendCharUnsafe ch)
        stringLoop rounds (ptr.drop 2) tmp
    else
      let tmp ← stored (tmp.appendCharUnsafe ch)
      stringLoop rounds (ptr.drop 1) tmp

section

variable {δ : Type} (cfg : Config) (nums : Numbers δ)

/-- A token, the index it is reported at and the parser behind it. -/
structure Lexed (δ : Type) where
  token : Token δ
  index : Nat
  json : Parse

def jsonNextStringToken (json : Parse) (index : Nat) : Decoding (Lexed δ) := do
  let ptr := json.ptr.drop 1
  let (failed, ptr, tmp) ← stringLoop (ptr.length + 1) ptr json.tmp.reset
  let json := { json with ptr, tmp }
  match failed with
  | some message => return ⟨.error message, json.index, json⟩
  | none =>
    let tmp ← stored tmp.ensureNull
    return ⟨.string tmp.bytes, index, { json with tmp }⟩

/-! ### Numbers -/

/-- A `char`, which has a sign. -/
def isOrdinary (ch : UInt8) : Bool := ch ≤ 57 || 128 ≤ ch

/-- `!strncasecmp(p, s, 3)`, for three letters in lower case. -/
def startsWithFold (p s : List UInt8) : Bool := (p.take 3).map (fun ch => if 65 ≤ ch ∧ ch ≤ 90 then ch + 32 else ch) == s

/-- The test behind the sign. -/
def isInvalidUnsigned (p : List UInt8) : Decoding Bool := do
  let ch ← read p 0
  if ch = 48 then
    let ch2 ← read p 1
    return (ch2 ||| 0x20) == 120 || (48 ≤ ch2 && ch2 ≤ 57)
  if isOrdinary ch then return false
  return startsWithFold p [105, 110, 102] || startsWithFold p [110, 97, 110]

def jsonIsInvalidNumber (p : List UInt8) : Decoding Bool := do
  let ch ← read p 0
  if ch = 43 then return true
  if ch = 45 then isInvalidUnsigned (p.drop 1) else isInvalidUnsigned p

def jsonNextNumberToken (json : Parse) (index : Nat) : Lexed δ :=
  let (value, len) := nums.strtod json.ptr
  if len = 0 then ⟨.error "invalid number", json.index, json⟩
  else ⟨.number value, index, { json with ptr := json.ptr.drop len }⟩

/-! ### The tokenizer -/

def isWhitespace (ch : UInt8) : Bool := ch2token ch == .whitespace

/-- `!strncmp(p, s, strlen(s))`. -/
def startsWith (p : List UInt8) (s : List Char) : Bool := (s.map Char.toUInt8).isPrefixOf p

/-- The characters that need further processing. -/
def jsonUnknownToken (json : Parse) (ch : UInt8) : Decoding (Lexed δ) := do
  let index := json.index
  let skip (n : Nat) : Parse := { json with ptr := json.ptr.drop n }
  if ch = 34 then jsonNextStringToken json index
  else if ch = 45 ∨ (48 ≤ ch ∧ ch ≤ 57) then
    if cfg.decodeInvalidNumbers then return jsonNextNumberToken nums json index
    else if ← jsonIsInvalidNumber json.ptr then return ⟨.error "invalid number", index, json⟩
    else return jsonNextNumberToken nums json index
  else if startsWith json.ptr ['t', 'r', 'u', 'e'] then return ⟨.boolean true, index, skip 4⟩
  else if startsWith json.ptr ['f', 'a', 'l', 's', 'e'] then return ⟨.boolean false, index, skip 5⟩
  else if startsWith json.ptr ['n', 'u', 'l', 'l'] then return ⟨.null, index, skip 4⟩
  else if !cfg.decodeInvalidNumbers then return ⟨.error "invalid token", index, json⟩
  else if ← jsonIsInvalidNumber json.ptr then return jsonNextNumberToken nums json index
  else return ⟨.error "invalid token", index, json⟩

/-- The token at the pointer, behind the whitespace. -/
def jsonTokenAt (json : Parse) : Decoding (Lexed δ) := do
  let ch ← read json.ptr 0
  let index := json.index
  let next : Parse := { json with ptr := json.ptr.drop 1 }
  match ch2token ch with
  | .error => return ⟨.error "invalid token", index, json⟩
  | .endText => return ⟨.endText, index, json⟩
  | .objBegin => return ⟨.objBegin, index, next⟩
  | .objEnd => return ⟨.objEnd, index, next⟩
  | .arrBegin => return ⟨.arrBegin, index, next⟩
  | .arrEnd => return ⟨.arrEnd, index, next⟩
  | .comma => return ⟨.comma, index, next⟩
  | .colon => return ⟨.colon, index, next⟩
  | _ => jsonUnknownToken cfg nums json ch

def jsonNextToken (json : Parse) : Decoding (Lexed δ) :=
  jsonTokenAt cfg nums { json with ptr := json.ptr.dropWhile isWhitespace }

/-! ### The parser -/

def jsonThrowParseError {α : Type} (exp : String) (lexed : Lexed δ) : Decoding α :=
  let found := match lexed.token with
    | .error message => message
    | token => jsonTokenTypeName token.type
  .error (.expected exp found (lexed.index + 1))

def jsonDecodeDescend (json : Parse) : Decoding Parse :=
  let json := { json with currentDepth := json.currentDepth + 1 }
  if json.currentDepth ≤ cfg.decodeMaxDepth then .ok json else .error (.nesting json.currentDepth json.index)

def jsonDecodeAscend (json : Parse) : Parse := { json with currentDepth := json.currentDepth - 1 }

/-- `lua_rawset`. -/
def luaRawset (pairs : List (Key × Tree δ)) (key : Key) (value : Tree δ) : List (Key × Tree δ) :=
  if pairs.any (·.1 = key) then pairs.map fun pair => if pair.1 = key then (key, value) else pair
  else pairs ++ [(key, value)]

/-- The loop of `json_parse_object_context`. -/
def objectLoop (processValue : Lexed δ → Decoding (Tree δ × Parse)) :
    Nat → Lexed δ → List (Key × Tree δ) → Decoding (Tree δ × Parse)
  | 0, _, _ => .error .fault
  | rounds + 1, lexed, pairs => do
    match lexed.token with
    | .string key =>
      let lexed ← jsonNextToken cfg nums lexed.json
      if lexed.token.type ≠ .colon then jsonThrowParseError "colon" lexed
      else
        let lexed ← jsonNextToken cfg nums lexed.json
        let (value, json) ← processValue lexed
        let pairs := luaRawset pairs (.string key) value
        let lexed ← jsonNextToken cfg nums json
        if lexed.token.type = .objEnd then return (.table pairs, jsonDecodeAscend lexed.json)
        else if lexed.token.type ≠ .comma then jsonThrowParseError "comma or object end" lexed
        else
          let lexed ← jsonNextToken cfg nums lexed.json
          objectLoop processValue rounds lexed pairs
    | _ => jsonThrowParseError "object key string" lexed

def jsonParseObjectContext (processValue : Lexed δ → Decoding (Tree δ × Parse)) (json : Parse) :
    Decoding (Tree δ × Parse) := do
  let json ← jsonDecodeDescend cfg json
  let lexed ← jsonNextToken cfg nums json
  if lexed.token.type = .objEnd then return (.table [], jsonDecodeAscend lexed.json)
  else objectLoop cfg nums processValue (json.ptr.length + 1) lexed []

/-- The loop of `json_parse_array_context`. -/
def arrayLoop (processValue : Lexed δ → Decoding (Tree δ × Parse)) :
    Nat → Nat → Lexed δ → List (Key × Tree δ) → Decoding (Tree δ × Parse)
  | 0, _, _, _ => .error .fault
  | rounds + 1, i, lexed, pairs => do
    let (value, json) ← processValue lexed
    let pairs := luaRawset pairs (.index i) value
    let lexed ← jsonNextToken cfg nums json
    if lexed.token.type = .arrEnd then return (.table pairs, jsonDecodeAscend lexed.json)
    else if lexed.token.type ≠ .comma then jsonThrowParseError "comma or array end" lexed
    else
      let lexed ← jsonNextToken cfg nums lexed.json
      arrayLoop processValue rounds (i + 1) lexed pairs

def jsonParseArrayContext (processValue : Lexed δ → Decoding (Tree δ × Parse)) (json : Parse) :
    Decoding (Tree δ × Parse) := do
  let json ← jsonDecodeDescend cfg json
  let lexed ← jsonNextToken cfg nums json
  if lexed.token.type = .arrEnd then return (.table [], jsonDecodeAscend lexed.json)
  else arrayLoop cfg nums processValue (json.ptr.length + 1) 1 lexed []

def jsonProcessValue : Nat → Lexed δ → Decoding (Tree δ × Parse)
  | 0, _ => .error .fault
  | rounds + 1, lexed =>
    match lexed.token with
    | .string s => .ok (.string s, lexed.json)
    | .number n => .ok (.number n, lexed.json)
    | .boolean b => .ok (.boolean b, lexed.json)
    | .objBegin => jsonParseObjectContext cfg nums (jsonProcessValue rounds) lexed.json
    | .arrBegin => jsonParseArrayContext cfg nums (jsonProcessValue rounds) lexed.json
    | .null => .ok (.null, lexed.json)
    | _ => jsonThrowParseError "value" lexed

def jsonDecode (text : List UInt8) : Decoding (Tree δ) := do
  let data := text ++ [0]
  if 2 ≤ text.length ∧ (text[0]? = some 0 ∨ text[1]? = some 0) then .error .encoding
  else
    let tmp ← stored (Strbuf.init (toInt text.length))
    let lexed ← jsonNextToken cfg nums ⟨data.length, data, tmp, 0⟩
    let (value, json) ← jsonProcessValue cfg nums (cfg.decodeMaxDepth + 1) lexed
    let lexed ← jsonNextToken cfg nums json
    if lexed.token.type ≠ .endText then jsonThrowParseError "the end" lexed else return value

end

end SkynetServer.Cjson
