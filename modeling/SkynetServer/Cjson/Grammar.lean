import Mathlib.Data.List.TakeWhile
import Mathlib.Tactic.FinCases
import SkynetServer.Cjson.Strings

/-!
# The grammar

The texts that denote a value, as a relation between a text, what it denotes and the text behind it: first the tokens, each
after any whitespace, then the values. The text of a number is what `strtod` takes for one. `Parses` counts how deep the
arrays and objects are nested. An array denotes the table with its elements at 1, 2 and so on, and an object the table that
results from setting its members one after the other.
-/

namespace SkynetServer.Cjson

variable {δ : Type}

def symbols : List (UInt8 × Token δ) :=
  [(123, .objBegin), (125, .objEnd), (91, .arrBegin), (93, .arrEnd), (44, .comma), (58, .colon)]

def literals : List (List UInt8 × Token δ) :=
  [(['t', 'r', 'u', 'e'].map Char.toUInt8, .boolean true), (['f', 'a', 'l', 's', 'e'].map Char.toUInt8, .boolean false),
    (['n', 'u', 'l', 'l'].map Char.toUInt8, .null)]

def IsDigitOrMinus (ch : UInt8) : Prop := ch = 45 ∨ (48 ≤ ch ∧ ch ≤ 57)

/-- A number begins with a digit or a minus sign. If the configuration allows numbers that JSON does not have, it may also be
one of these with a letter or a plus sign at the beginning, and else it must not be one of them. -/
def StartsNumber (cfg : Config) (text : List UInt8) : Prop :=
  ∃ ch rest, text = ch :: rest ∧
    ((IsDigitOrMinus ch ∧ (cfg.decodeInvalidNumbers = true ∨ jsonIsInvalidNumber text = .ok false)) ∨
      (ch ∈ [43, 73, 78, 105, 110] ∧ cfg.decodeInvalidNumbers = true ∧ jsonIsInvalidNumber text = .ok true))

/-- The token a text begins with. The end of the text is not behind its `NUL`. -/
inductive Word (cfg : Config) (nums : Numbers δ) : List UInt8 → Token δ → List UInt8 → Prop where
  | symbol {ch : UInt8} {token : Token δ} (h : (ch, token) ∈ symbols) (rest : List UInt8) : Word cfg nums (ch :: rest) token rest
  | literal {word : List UInt8} {token : Token δ} (h : (word, token) ∈ literals) (rest : List UInt8) :
    Word cfg nums (word ++ rest) token rest
  | string {text s rest : List UInt8} (h : Body text s rest) : Word cfg nums (34 :: text) (.string s) rest
  | number {text : List UInt8} {n : δ} {len : Nat} (hstart : StartsNumber cfg text) (hread : nums.strtod text = (n, len))
    (hlen : 0 < len) : Word cfg nums text (.number n) (text.drop len)
  | endText (rest : List UInt8) : Word cfg nums (0 :: rest) .endText (0 :: rest)

/-- The first token behind the whitespace. -/
def Lex (cfg : Config) (nums : Numbers δ) (text : List UInt8) (token : Token δ) (rest : List UInt8) : Prop :=
  Word cfg nums (text.dropWhile isWhitespace) token rest

inductive Item (δ : Type) where
  | value (tree : Tree δ)
  | elements (trees : List (Tree δ))
  | members (pairs : List (List UInt8 × Tree δ))

/-- The pairs of an array, from an index on. -/
def indexed : Nat → List (Tree δ) → List (Key × Tree δ)
  | _, [] => []
  | i, tree :: trees => (.index i, tree) :: indexed (i + 1) trees

/-- The table after its members have been set. -/
def setAll (pairs : List (Key × Tree δ)) : List (List UInt8 × Tree δ) → List (Key × Tree δ)
  | [] => pairs
  | (key, tree) :: members => setAll (luaRawset pairs (.string key) tree) members

inductive Parses (cfg : Config) (nums : Numbers δ) : Nat → List UInt8 → Item δ → List UInt8 → Prop where
  | string {d : Nat} {text s rest : List UInt8} (h : Lex cfg nums text (.string s) rest) :
    Parses cfg nums d text (.value (.string s)) rest
  | number {d : Nat} {text rest : List UInt8} {n : δ} (h : Lex cfg nums text (.number n) rest) :
    Parses cfg nums d text (.value (.number n)) rest
  | boolean {d : Nat} {text rest : List UInt8} {b : Bool} (h : Lex cfg nums text (.boolean b) rest) :
    Parses cfg nums d text (.value (.boolean b)) rest
  | null {d : Nat} {text rest : List UInt8} (h : Lex cfg nums text .null rest) : Parses cfg nums d text (.value .null) rest
  | emptyArray {d : Nat} {text mid rest : List UInt8} (hopen : Lex cfg nums text .arrBegin mid)
    (hclose : Lex cfg nums mid .arrEnd rest) : Parses cfg nums (d + 1) text (.value (.table [])) rest
  | array {d : Nat} {text mid rest : List UInt8} {trees : List (Tree δ)} (hopen : Lex cfg nums text .arrBegin mid)
    (h : Parses cfg nums d mid (.elements trees) rest) :
    Parses cfg nums (d + 1) text (.value (.table (indexed 1 trees))) rest
  | lastElement {d : Nat} {text mid rest : List UInt8} {tree : Tree δ} (h : Parses cfg nums d text (.value tree) mid)
    (hclose : Lex cfg nums mid .arrEnd rest) : Parses cfg nums d text (.elements [tree]) rest
  | element {d : Nat} {text mid next rest : List UInt8} {tree : Tree δ} {trees : List (Tree δ)}
    (h : Parses cfg nums d text (.value tree) mid) (hcomma : Lex cfg nums mid .comma next)
    (hrest : Parses cfg nums d next (.elements trees) rest) : Parses cfg nums d text (.elements (tree :: trees)) rest
  | emptyObject {d : Nat} {text mid rest : List UInt8} (hopen : Lex cfg nums text .objBegin mid)
    (hclose : Lex cfg nums mid .objEnd rest) : Parses cfg nums (d + 1) text (.value (.table [])) rest
  | object {d : Nat} {text mid rest : List UInt8} {pairs : List (List UInt8 × Tree δ)}
    (hopen : Lex cfg nums text .objBegin mid) (h : Parses cfg nums d mid (.members pairs) rest) :
    Parses cfg nums (d + 1) text (.value (.table (setAll [] pairs))) rest
  | lastMember {d : Nat} {text mid₁ mid₂ mid₃ rest key : List UInt8} {tree : Tree δ}
    (hkey : Lex cfg nums text (.string key) mid₁) (hcolon : Lex cfg nums mid₁ .colon mid₂)
    (h : Parses cfg nums d mid₂ (.value tree) mid₃) (hclose : Lex cfg nums mid₃ .objEnd rest) :
    Parses cfg nums d text (.members [(key, tree)]) rest
  | member {d : Nat} {text mid₁ mid₂ mid₃ next rest key : List UInt8} {tree : Tree δ} {pairs : List (List UInt8 × Tree δ)}
    (hkey : Lex cfg nums text (.string key) mid₁) (hcolon : Lex cfg nums mid₁ .colon mid₂)
    (h : Parses cfg nums d mid₂ (.value tree) mid₃) (hcomma : Lex cfg nums mid₃ .comma next)
    (hrest : Parses cfg nums d next (.members pairs) rest) : Parses cfg nums d text (.members ((key, tree) :: pairs)) rest

/-- The text denotes the value: nothing but whitespace follows it up to the first `NUL`, and nothing in it is nested deeper than
the configuration allows. -/
def Denotes (cfg : Config) (nums : Numbers δ) (text : List UInt8) (tree : Tree δ) : Prop :=
  ∃ mid rest, Parses cfg nums cfg.decodeMaxDepth (text ++ [0]) (.value tree) mid ∧ Lex cfg nums mid .endText rest

/-! ### Tokens -/

theorem Body.length_lt {text s rest : List UInt8} (h : Body text s rest) : s.length + rest.length < text.length := by
  induction h with
  | close rest => simp
  | plain hb h ih => simp only [List.length_cons]; omega
  | short hc h ih => simp only [List.length_cons]; omega
  | @unicode e c text s rest he h ih =>
    have hsix := he.six_le_length
    have hutf8 := length_utf8EncodeChar_le c
    simp only [List.length_append]
    omega

/-- What a token leaves of the text; only the end leaves it as it is. -/
theorem Word.length_lt {cfg : Config} {nums : Numbers δ} {text rest : List UInt8} {token : Token δ}
    (h : Word cfg nums text token rest) (hend : token ≠ .endText) : rest.length < text.length := by
  cases h with
  | symbol h rest => simp
  | literal h rest =>
    simp only [literals, List.mem_cons, Prod.mk.injEq, List.not_mem_nil, or_false] at h
    rw [List.length_append]
    rcases h with ⟨rfl, -⟩ | ⟨rfl, -⟩ | ⟨rfl, -⟩ <;>
    · simp only [List.map_cons, List.length_cons]
      omega
  | string h =>
    have hlt := h.length_lt
    simp only [List.length_cons]
    omega
  | number hstart hread hlen =>
    obtain ⟨ch, rest, rfl, -⟩ := hstart
    simp only [List.length_drop, List.length_cons]
    omega
  | endText rest => exact absurd rfl hend

theorem Lex.length_lt {cfg : Config} {nums : Numbers δ} {text rest : List UInt8} {token : Token δ}
    (h : Lex cfg nums text token rest) (hend : token ≠ .endText) : rest.length < text.length :=
  Nat.lt_of_lt_of_le (Word.length_lt h hend) (List.dropWhile_suffix isWhitespace).length_le

/-! ### Finding a token -/

variable {cfg : Config} {nums : Numbers δ}

theorem jsonNextStringToken_of_body {json : Parse} {index : Nat} {text s rest : List UInt8} (hptr : json.ptr = 34 :: text)
    (h : Body text s rest) (hroom : json.ptr.length ≤ json.tmp.size) :
    ∃ tmp : Strbuf, (jsonNextStringToken json index : Decoding (Lexed δ)) =
      .ok ⟨.string s, index, { json with ptr := rest, tmp }⟩ ∧ tmp.size = json.tmp.size := by
  have hlt := h.length_lt
  rw [hptr, List.length_cons] at hroom
  have hloop : stringLoop (text.length + 1) text json.tmp.reset = .ok (none, rest, { size := json.tmp.size, bytes := s }) :=
    stringLoop_of_body h (Nat.le_succ _) (by simp only [Strbuf.reset, Strbuf.length, List.length_nil]; omega)
  have hnull : ({ size := json.tmp.size, bytes := s } : Strbuf).ensureNull = some { size := json.tmp.size, bytes := s } :=
    if_pos (by simp only [Strbuf.length]; omega)
  refine ⟨{ size := json.tmp.size, bytes := s }, ?_, rfl⟩
  simp [jsonNextStringToken, hptr, hloop, hnull, stored]

theorem jsonNextNumberToken_of_pos {json : Parse} {index : Nat} {n : δ} {len : Nat} (h : nums.strtod json.ptr = (n, len))
    (hlen : 0 < len) :
    jsonNextNumberToken nums json index = ⟨.number n, index, { json with ptr := json.ptr.drop len }⟩ := by
  simp only [jsonNextNumberToken, h, if_neg (Nat.ne_of_gt hlen)]

theorem startsWith_iff {p : List UInt8} {s : List Char} : startsWith p s = true ↔ ∃ rest, p = s.map Char.toUInt8 ++ rest := by
  rw [startsWith, List.isPrefixOf_iff_prefix]
  exact ⟨fun ⟨rest, h⟩ => ⟨rest, h.symm⟩, fun ⟨rest, h⟩ => ⟨rest, h.symm⟩⟩

theorem startsWith_cons_of_ne {ch : UInt8} {c : Char} (h : c.toUInt8 ≠ ch) (rest : List UInt8) (s : List Char) :
    startsWith (ch :: rest) (c :: s) = false := by
  rw [Bool.eq_false_iff]
  intro hs
  obtain ⟨rest', hrest⟩ := startsWith_iff.mp hs
  exact h (List.cons.inj hrest).1.symm

theorem isDigitOrMinus_cases : ∀ ch : UInt8, ch = 45 ∨ (48 ≤ ch ∧ ch ≤ 57) → ch2token ch = .unknown ∧ ch ≠ 34 :=
  forall_byte (by decide +kernel)

/-- The further processing takes what begins with a digit or a minus sign for a number. -/
theorem jsonUnknownToken_of_digit {json : Parse} {ch : UInt8} {n : δ} {len : Nat} (hch : IsDigitOrMinus ch)
    (hinvalid : cfg.decodeInvalidNumbers = true ∨ jsonIsInvalidNumber json.ptr = .ok false)
    (hread : nums.strtod json.ptr = (n, len)) (hlen : 0 < len) :
    jsonUnknownToken cfg nums json ch = .ok ⟨.number n, json.index, { json with ptr := json.ptr.drop len }⟩ := by
  simp only [jsonUnknownToken, if_neg (isDigitOrMinus_cases ch hch).2]
  unfold IsDigitOrMinus at hch
  rw [if_pos hch, jsonNextNumberToken_of_pos hread hlen]
  rcases hinvalid with h | h
  · rw [if_pos h]
    rfl
  · rw [h]
    split <;> rfl

/-- And what begins in another way it takes for one only if that is not a number of JSON. -/
theorem jsonUnknownToken_of_letter {json : Parse} {ch : UInt8} {rest : List UInt8} {n : δ} {len : Nat}
    (hptr : json.ptr = ch :: rest) (hch : ch ∈ [43, 73, 78, 105, 110]) (hcfg : cfg.decodeInvalidNumbers = true)
    (hinvalid : jsonIsInvalidNumber json.ptr = .ok true) (hread : nums.strtod json.ptr = (n, len)) (hlen : 0 < len) :
    jsonUnknownToken cfg nums json ch = .ok ⟨.number n, json.index, { json with ptr := json.ptr.drop len }⟩ := by
  have hother : ch ≠ 34 ∧ ¬ (ch = 45 ∨ (48 ≤ ch ∧ ch ≤ 57)) ∧ ch ≠ 116 ∧ ch ≠ 102 := by
    fin_cases hch <;> decide
  have htrue : startsWith json.ptr ['t', 'r', 'u', 'e'] = false := by
    rw [hptr, startsWith_cons_of_ne (by exact Ne.symm hother.2.2.1)]
  have hfalse : startsWith json.ptr ['f', 'a', 'l', 's', 'e'] = false := by
    rw [hptr, startsWith_cons_of_ne (by exact Ne.symm hother.2.2.2)]
  have hnull : startsWith json.ptr ['n', 'u', 'l', 'l'] = false := by
    rw [Bool.eq_false_iff]
    intro h
    obtain ⟨rest, hrest⟩ := startsWith_iff.mp h
    rw [hrest] at hinvalid
    cases hinvalid
  simp only [jsonUnknownToken, if_neg hother.1, if_neg hother.2.1, htrue, hfalse, hnull, hcfg, hinvalid, ok_bind,
    jsonNextNumberToken_of_pos hread hlen]
  rfl

theorem jsonTokenAt_of_unknown {data depth : Nat} {ch : UInt8} {rest : List UInt8} {tmp : Strbuf}
    (h : ch2token ch = .unknown) :
    jsonTokenAt cfg nums ⟨data, ch :: rest, tmp, depth⟩ = jsonUnknownToken cfg nums ⟨data, ch :: rest, tmp, depth⟩ ch := by
  simp only [jsonTokenAt, read_cons_zero, ok_bind, h]

theorem jsonTokenAt_of_word {json : Parse} {token : Token δ} {rest : List UInt8} (h : Word cfg nums json.ptr token rest)
    (hroom : json.ptr.length ≤ json.tmp.size) :
    ∃ index tmp, jsonTokenAt cfg nums json = .ok ⟨token, index, { json with ptr := rest, tmp }⟩ ∧
      tmp.size = json.tmp.size := by
  obtain ⟨data, ptr, tmp, depth⟩ := json
  cases h with
  | @symbol ch token h rest =>
    simp only [symbols, List.mem_cons, Prod.mk.injEq, List.not_mem_nil, or_false] at h
    rcases h with ⟨rfl, rfl⟩ | ⟨rfl, rfl⟩ | ⟨rfl, rfl⟩ | ⟨rfl, rfl⟩ | ⟨rfl, rfl⟩ | ⟨rfl, rfl⟩ <;>
      exact ⟨_, tmp, rfl, rfl⟩
  | @literal word token h rest =>
    simp only [literals, List.mem_cons, Prod.mk.injEq, List.not_mem_nil, or_false] at h
    rcases h with ⟨rfl, rfl⟩ | ⟨rfl, rfl⟩ | ⟨rfl, rfl⟩ <;>
      exact ⟨_, tmp, rfl, rfl⟩
  | @string text s rest h =>
    obtain ⟨tmp', hrun, hsize⟩ := @jsonNextStringToken_of_body δ ⟨data, 34 :: text, tmp, depth⟩
      (data - (text.length + 1)) text s rest rfl h hroom
    exact ⟨_, tmp', hrun, hsize⟩
  | @number text n len hstart hread hlen =>
    obtain ⟨ch, rest, rfl, ⟨hch, hinvalid⟩ | ⟨hch, hcfg, hinvalid⟩⟩ := hstart
    · have hrun := @jsonUnknownToken_of_digit δ cfg nums ⟨data, ch :: rest, tmp, depth⟩ ch n len hch hinvalid hread hlen
      exact ⟨_, tmp, (jsonTokenAt_of_unknown (isDigitOrMinus_cases ch hch).1).trans hrun, rfl⟩
    · have hrun := @jsonUnknownToken_of_letter δ cfg nums ⟨data, ch :: rest, tmp, depth⟩ ch rest n len rfl hch hcfg hinvalid
        hread hlen
      have hunknown : ch2token ch = .unknown := by
        fin_cases hch <;> rfl
      exact ⟨_, tmp, (jsonTokenAt_of_unknown hunknown).trans hrun, rfl⟩
  | endText rest => exact ⟨_, tmp, rfl, rfl⟩

theorem jsonNextToken_of_lex {json : Parse} {token : Token δ} {rest : List UInt8} (h : Lex cfg nums json.ptr token rest)
    (hroom : json.ptr.length ≤ json.tmp.size) :
    ∃ index tmp, jsonNextToken cfg nums json = .ok ⟨token, index, { json with ptr := rest, tmp }⟩ ∧
      tmp.size = json.tmp.size := by
  have hle : (json.ptr.dropWhile isWhitespace).length ≤ json.ptr.length := (List.dropWhile_suffix isWhitespace).length_le
  exact @jsonTokenAt_of_word δ cfg nums { json with ptr := json.ptr.dropWhile isWhitespace } token rest h (hle.trans hroom)

/-! ### Every token -/

/-- The pointer is in the text, and the temporary buffer is as long as what is left of it. -/
structure Parse.Ok (json : Parse) : Prop where
  nul : 0 ∈ json.ptr
  room : json.ptr.length ≤ json.tmp.size

/-- What one call leaves: it has not gone back or out of the text, and a token that is not an error is there. -/
structure Lexes (cfg : Config) (nums : Numbers δ) (json : Parse) (text : List UInt8) (lexed : Lexed δ) : Prop where
  nul : 0 ∈ lexed.json.ptr
  length_le : lexed.json.ptr.length ≤ text.length
  size_eq : lexed.json.tmp.size = json.tmp.size
  depth_eq : lexed.json.currentDepth = json.currentDepth
  word : (∀ message, lexed.token ≠ .error message) → Word cfg nums text lexed.token lexed.json.ptr

theorem lexes_error {json : Parse} (h : 0 ∈ json.ptr) (index : Nat) (message : String) :
    Lexes cfg nums json json.ptr ⟨.error message, index, json⟩ :=
  ⟨h, Nat.le_refl _, rfl, rfl, fun hok => absurd rfl (hok message)⟩

theorem jsonNextStringToken_spec {json : Parse} (index : Nat) {text : List UInt8} (hptr : json.ptr = 34 :: text)
    (h : json.Ok) : ∃ lexed, jsonNextStringToken json index = .ok lexed ∧ Lexes cfg nums json json.ptr lexed := by
  have hnul : 0 ∈ text := by simpa [hptr] using h.nul
  have hroom : text.length + 1 ≤ json.tmp.size := by simpa [hptr] using h.room
  obtain ⟨failed, rest, tmp, hloop, hread⟩ := @stringLoop_spec (text.length + 1) text json.tmp.reset (Nat.le_succ _) hnul
    (by simp only [Strbuf.reset, Strbuf.length, List.length_nil]; omega)
  have hle := hread.length_le
  cases failed with
  | some message =>
    refine ⟨_, by simp [jsonNextStringToken, hptr, hloop]; rfl, hread.nul, ?_, hread.size_eq, rfl, ?_⟩
    · simp only [hptr, List.length_cons]
      omega
    · intro hok
      exact absurd rfl (hok message)
  | none =>
    obtain ⟨s, hbody, hbytes, hlt⟩ := hread.body rfl
    have hs : tmp.bytes = s := hbytes
    have hnull : tmp.ensureNull = some tmp := if_pos (by rw [hread.size_eq]; omega)
    refine ⟨⟨.string tmp.bytes, index, { json with ptr := rest, tmp }⟩, ?_, hread.nul, ?_, hread.size_eq, rfl, ?_⟩
    · simp [jsonNextStringToken, hptr, hloop, hnull, stored]
    · simp only [hptr, List.length_cons]
      omega
    · intro _
      rw [hptr, hs]
      exact .string hbody

theorem zero_mem_drop {p : List UInt8} {len : Nat} (hp : 0 ∈ p) (hlen : len ≤ (p.takeWhile (· ≠ 0)).length) :
    0 ∈ p.drop len := by
  have hsplit := List.takeWhile_append_dropWhile (p := (· ≠ (0 : UInt8))) (l := p)
  have hbefore : 0 ∉ p.takeWhile (· ≠ 0) := by
    intro h
    exact absurd (List.mem_takeWhile_imp h) (by decide)
  have hbehind : 0 ∈ p.dropWhile (· ≠ 0) := by
    rw [← hsplit] at hp
    exact (List.mem_append.mp hp).resolve_left hbefore
  rw [← hsplit, List.drop_append_of_le_length hlen]
  exact List.mem_append_right _ hbehind

theorem jsonNextNumberToken_spec (hnums : nums.Lawful) {json : Parse} (index : Nat) (hnul : 0 ∈ json.ptr)
    (hstart : StartsNumber cfg json.ptr) : Lexes cfg nums json json.ptr (jsonNextNumberToken nums json index) := by
  rcases hread : nums.strtod json.ptr with ⟨n, len⟩
  have hle := hnums.strtod_le json.ptr
  rw [hread] at hle
  by_cases hlen : len = 0
  · simp only [jsonNextNumberToken, hread, if_pos hlen]
    exact lexes_error hnul _ _
  · rw [jsonNextNumberToken_of_pos hread (Nat.pos_of_ne_zero hlen)]
    refine ⟨zero_mem_drop hnul hle, by simp, rfl, rfl, fun _ => ?_⟩
    exact .number hstart hread (Nat.pos_of_ne_zero hlen)

/-- The test reads a second byte only behind one that is not the `NUL`. -/
theorem isInvalidUnsigned_spec {p : List UInt8} (hp : 0 ∈ p) : ∃ invalid, isInvalidUnsigned p = .ok invalid := by
  obtain ⟨ch, rest, rfl, hrest⟩ := exists_cons_of_mem hp
  by_cases hzero : ch = 48
  · subst hzero
    obtain ⟨ch2, rest, rfl, -⟩ := exists_cons_of_mem (hrest (by decide))
    exact ⟨_, rfl⟩
  · by_cases hordinary : isOrdinary ch = true
    · exact ⟨false, by simp [isInvalidUnsigned, hzero, hordinary]⟩
    · exact ⟨_, by simp [isInvalidUnsigned, hzero, hordinary]; rfl⟩

theorem jsonIsInvalidNumber_spec {p : List UInt8} (hp : 0 ∈ p) : ∃ invalid, jsonIsInvalidNumber p = .ok invalid := by
  obtain ⟨ch, rest, rfl, hrest⟩ := exists_cons_of_mem hp
  by_cases hplus : ch = 43
  · exact ⟨true, by simp [jsonIsInvalidNumber, hplus]⟩
  · by_cases hminus : ch = 45
    · obtain ⟨invalid, hrun⟩ := isInvalidUnsigned_spec (hrest (by rw [hminus]; decide))
      exact ⟨invalid, by simp [jsonIsInvalidNumber, hminus, hrun]⟩
    · obtain ⟨invalid, hrun⟩ := isInvalidUnsigned_spec hp
      exact ⟨invalid, by simp [jsonIsInvalidNumber, hplus, hminus, hrun]⟩

theorem unknown_cases : ∀ ch : UInt8, ch2token ch = .unknown → ch ≠ 34 → ¬ (ch = 45 ∨ (48 ≤ ch ∧ ch ≤ 57)) →
    ch = 43 ∨ ch ∈ [(73 : UInt8), 78, 102, 105, 110, 116] :=
  forall_byte (by decide +kernel)

theorem lexes_literal {json : Parse} {word : List Char} {token : Token δ} (hnul : 0 ∈ json.ptr)
    (h : (word.map Char.toUInt8, token) ∈ literals) (hzero : 0 ∉ word.map Char.toUInt8)
    (hstarts : startsWith json.ptr word = true) (index : Nat) :
    Lexes cfg nums json json.ptr ⟨token, index, { json with ptr := json.ptr.drop word.length }⟩ := by
  obtain ⟨rest, hrest⟩ := startsWith_iff.mp hstarts
  have hdrop : json.ptr.drop word.length = rest := by
    rw [hrest, List.drop_left' (List.length_map _)]
  rw [hrest] at hnul
  refine ⟨?_, by simp, rfl, rfl, fun _ => ?_⟩
  · show 0 ∈ json.ptr.drop word.length
    rw [hdrop]
    exact (List.mem_append.mp hnul).resolve_left hzero
  · show Word cfg nums json.ptr token (json.ptr.drop word.length)
    rw [hdrop, hrest]
    exact .literal h rest

/-- Of the letters only those of infinity and of no number begin a number. -/
theorem jsonIsInvalidNumber_letter {ch : UInt8} {rest : List UInt8}
    (hch : ch = 43 ∨ ch ∈ [(73 : UInt8), 78, 102, 105, 110, 116])
    (h : jsonIsInvalidNumber (ch :: rest) = .ok true) : ch ∈ [(43 : UInt8), 73, 78, 105, 110] := by
  rcases hch with rfl | hch
  · decide
  · fin_cases hch
    · decide
    · decide
    · cases h
    · decide
    · decide
    · cases h

theorem jsonUnknownToken_spec (hnums : nums.Lawful) {json : Parse} {ch : UInt8} {rest : List UInt8}
    (hptr : json.ptr = ch :: rest) (hch : ch2token ch = .unknown) (h : json.Ok) :
    ∃ lexed, jsonUnknownToken cfg nums json ch = .ok lexed ∧ Lexes cfg nums json json.ptr lexed := by
  obtain ⟨invalid, hinvalid⟩ := jsonIsInvalidNumber_spec h.nul
  unfold jsonUnknownToken
  by_cases hquote : ch = 34
  · rw [if_pos hquote]
    exact jsonNextStringToken_spec json.index (hquote ▸ hptr) h
  rw [if_neg hquote]
  by_cases hdigit : ch = 45 ∨ (48 ≤ ch ∧ ch ≤ 57)
  · rw [if_pos hdigit]
    by_cases hcfg : cfg.decodeInvalidNumbers = true
    · rw [if_pos hcfg]
      exact ⟨_, rfl, jsonNextNumberToken_spec hnums _ h.nul ⟨ch, rest, hptr, .inl ⟨hdigit, .inl hcfg⟩⟩⟩
    · rw [if_neg hcfg, hinvalid, ok_bind]
      cases invalid with
      | true => exact ⟨_, rfl, lexes_error h.nul _ _⟩
      | false => exact ⟨_, rfl, jsonNextNumberToken_spec hnums _ h.nul ⟨ch, rest, hptr, .inl ⟨hdigit, .inr hinvalid⟩⟩⟩
  rw [if_neg hdigit]
  by_cases htrue : startsWith json.ptr ['t', 'r', 'u', 'e'] = true
  · rw [if_pos htrue]
    exact ⟨_, rfl, lexes_literal h.nul (by simp [literals]) (by decide) htrue _⟩
  rw [if_neg htrue]
  by_cases hfalse : startsWith json.ptr ['f', 'a', 'l', 's', 'e'] = true
  · rw [if_pos hfalse]
    exact ⟨_, rfl, lexes_literal h.nul (by simp [literals]) (by decide) hfalse _⟩
  rw [if_neg hfalse]
  by_cases hnull : startsWith json.ptr ['n', 'u', 'l', 'l'] = true
  · rw [if_pos hnull]
    exact ⟨_, rfl, lexes_literal h.nul (by simp [literals]) (by decide) hnull _⟩
  rw [if_neg hnull]
  by_cases hcfg : cfg.decodeInvalidNumbers = true
  · rw [if_neg (by simp [hcfg]), hinvalid, ok_bind]
    cases invalid with
    | true =>
      have hletter := jsonIsInvalidNumber_letter (unknown_cases ch hch hquote hdigit) (hptr ▸ hinvalid)
      exact ⟨_, rfl, jsonNextNumberToken_spec hnums _ h.nul ⟨ch, rest, hptr, .inr ⟨hletter, hcfg, hinvalid⟩⟩⟩
    | false => exact ⟨_, rfl, lexes_error h.nul _ _⟩
  · rw [if_pos (by simp [hcfg])]
    exact ⟨_, rfl, lexes_error h.nul _ _⟩

theorem lexes_symbol {json : Parse} {ch : UInt8} {rest : List UInt8} {token : Token δ} (hptr : json.ptr = ch :: rest)
    (hnul : 0 ∈ rest) (h : (ch, token) ∈ symbols) (index : Nat) :
    Lexes cfg nums json json.ptr ⟨token, index, { json with ptr := json.ptr.drop 1 }⟩ := by
  have hdrop : json.ptr.drop 1 = rest := by rw [hptr]; rfl
  refine ⟨?_, by simp, rfl, rfl, fun _ => ?_⟩
  · show 0 ∈ json.ptr.drop 1
    rwa [hdrop]
  · show Word cfg nums json.ptr token (json.ptr.drop 1)
    rw [hdrop, hptr]
    exact .symbol h rest

theorem ch2token_cases : ∀ ch : UInt8,
    (ch2token ch = .objBegin ∧ ch = 123) ∨ (ch2token ch = .objEnd ∧ ch = 125) ∨ (ch2token ch = .arrBegin ∧ ch = 91) ∨
      (ch2token ch = .arrEnd ∧ ch = 93) ∨ (ch2token ch = .comma ∧ ch = 44) ∨ (ch2token ch = .colon ∧ ch = 58) ∨
      (ch2token ch = .endText ∧ ch = 0) ∨ ch2token ch = .error ∨ ch2token ch = .whitespace ∨ ch2token ch = .unknown :=
  forall_byte (by decide +kernel)

theorem jsonTokenAt_spec (hnums : nums.Lawful) {json : Parse} (h : json.Ok) (hhead : ∀ ch ∈ json.ptr.head?, ¬ isWhitespace ch) :
    ∃ lexed, jsonTokenAt cfg nums json = .ok lexed ∧ Lexes cfg nums json json.ptr lexed := by
  obtain ⟨ch, rest, hptr, hrest⟩ := exists_cons_of_mem h.nul
  have hread : read json.ptr 0 = .ok ch := by rw [hptr]; rfl
  unfold jsonTokenAt
  rw [hread, ok_bind]
  rcases ch2token_cases ch with h' | h' | h' | h' | h' | h' | ⟨htoken, hch⟩ | htoken | htoken | htoken
  iterate 6
    · obtain ⟨htoken, hch⟩ := h'
      simp only [htoken]
      exact ⟨_, rfl, lexes_symbol hptr (hrest (by rw [hch]; decide)) (by simp [symbols, hch]) _⟩
  · simp only [htoken]
    refine ⟨_, rfl, h.nul, Nat.le_refl _, rfl, rfl, fun _ => ?_⟩
    simp only [hptr, hch]
    exact .endText rest
  · simp only [htoken]
    exact ⟨_, rfl, lexes_error h.nul _ _⟩
  · exact absurd (by simp [isWhitespace, htoken]) (hhead ch (by rw [hptr]; rfl))
  · simp only [htoken]
    exact jsonUnknownToken_spec hnums hptr htoken h

theorem zero_mem_dropWhile {p : List UInt8} (hp : 0 ∈ p) : 0 ∈ p.dropWhile isWhitespace := by
  rw [← List.takeWhile_append_dropWhile (p := isWhitespace) (l := p)] at hp
  refine (List.mem_append.mp hp).resolve_left fun h => ?_
  exact absurd (List.mem_takeWhile_imp h) (by decide)

/-- **The tokenizer.** From a pointer into the text a call comes back, with the pointer still in the text and a token of the
grammar, or an error. -/
theorem jsonNextToken_spec (hnums : nums.Lawful) {json : Parse} (h : json.Ok) :
    ∃ lexed, jsonNextToken cfg nums json = .ok lexed ∧
      Lexes cfg nums json (json.ptr.dropWhile isWhitespace) lexed := by
  have hle : (json.ptr.dropWhile isWhitespace).length ≤ json.ptr.length := (List.dropWhile_suffix isWhitespace).length_le
  have hok : ({ json with ptr := json.ptr.dropWhile isWhitespace } : Parse).Ok :=
    ⟨zero_mem_dropWhile h.nul, hle.trans h.room⟩
  have hhead : ∀ ch ∈ (json.ptr.dropWhile isWhitespace).head?, ¬ isWhitespace ch := by
    intro ch hch
    have hnot := List.head?_dropWhile_not isWhitespace json.ptr
    rw [Option.mem_def.mp hch] at hnot
    exact Bool.eq_false_iff.mp hnot
  obtain ⟨lexed, hrun, hlexes⟩ := jsonTokenAt_spec hnums hok hhead
  exact ⟨lexed, hrun, hlexes.nul, hlexes.length_le, hlexes.size_eq, hlexes.depth_eq, hlexes.word⟩

end SkynetServer.Cjson
