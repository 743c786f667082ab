import SkynetServer.Cjson.Grammar

/-!
# What is accepted

`json_decode` returns a value exactly when the text denotes one, and then this one. On every text it comes back without
having read behind the text or written behind the temporary buffer.
-/

namespace SkynetServer.Cjson

variable {δ : Type} {cfg : Config} {nums : Numbers δ}

/-- A call that does not fail where C would not, with a condition on its result. -/
def Outcome {α : Type} (post : α → Prop) : Decoding α → Prop
  | .ok a => post a
  | .error e => e ≠ .fault

theorem Outcome.bind {α β : Type} {p : α → Prop} {q : β → Prop} {r : Decoding α} {f : α → Decoding β} (hr : Outcome p r)
    (hf : ∀ a, p a → Outcome q (f a)) : Outcome q (r >>= f) := by
  cases r with
  | ok a => exact hf a hr
  | error e => exact hr

theorem Outcome.mono {α : Type} {p q : α → Prop} {r : Decoding α} (hr : Outcome p r) (h : ∀ a, p a → q a) : Outcome q r := by
  cases r with
  | ok a => exact h a hr
  | error e => exact hr

theorem outcome_throw {α : Type} {post : α → Prop} (exp : String) (lexed : Lexed δ) :
    Outcome post (jsonThrowParseError exp lexed) := by
  intro h
  cases h

/-- The parser has gone on in the text. -/
structure Parse.Later (json json' : Parse) : Prop where
  ok : json'.Ok
  length_le : json'.ptr.length ≤ json.ptr.length
  size_eq : json'.tmp.size = json.tmp.size

theorem Parse.Later.trans {json json' json'' : Parse} (h : json.Later json') (h' : json'.Later json'') :
    json.Later json'' :=
  ⟨h'.ok, h'.length_le.trans h.length_le, h'.size_eq.trans h.size_eq⟩

theorem Parse.Ok.of_depth {json : Parse} (h : json.Ok) (depth : Nat) : ({ json with currentDepth := depth } : Parse).Ok :=
  ⟨h.nul, h.room⟩

/-- A call of the tokenizer. -/
def NextToken (cfg : Config) (nums : Numbers δ) (json : Parse) (lexed : Lexed δ) : Prop :=
  json.Later lexed.json ∧ lexed.json.currentDepth = json.currentDepth ∧
    ((∀ message, lexed.token ≠ .error message) → Lex cfg nums json.ptr lexed.token lexed.json.ptr)

theorem outcome_jsonNextToken (hnums : nums.Lawful) {json : Parse} (h : json.Ok) :
    Outcome (NextToken cfg nums json) (jsonNextToken cfg nums json) := by
  obtain ⟨lexed, hrun, hlexes⟩ := @jsonNextToken_spec δ cfg nums hnums json h
  have hle : lexed.json.ptr.length ≤ json.ptr.length :=
    hlexes.length_le.trans (List.dropWhile_suffix isWhitespace).length_le
  rw [hrun]
  exact ⟨⟨⟨hlexes.nul, by rw [hlexes.size_eq]; exact hle.trans h.room⟩, hle, hlexes.size_eq⟩, hlexes.depth_eq, hlexes.word⟩

theorem NextToken.lex {json : Parse} {lexed : Lexed δ} (h : NextToken cfg nums json lexed) {token : Token δ}
    (htoken : lexed.token = token) (hne : ∀ message, token ≠ .error message) :
    Lex cfg nums json.ptr token lexed.json.ptr := by
  subst htoken
  exact h.2.2 hne

theorem eq_of_type {token : Token δ} : (token.type = .objEnd → token = .objEnd) ∧ (token.type = .arrEnd → token = .arrEnd) ∧
    (token.type = .comma → token = .comma) ∧ (token.type = .colon → token = .colon) ∧
    (token.type = .endText → token = .endText) := by
  cases token <;> simp [Token.type]

/-! ### Values -/

/-- What a value in the text comes to, with the arrays and objects that may still be opened. -/
def ValueSound (cfg : Config) (nums : Numbers δ) (d : Nat) (processValue : Lexed δ → Decoding (Tree δ × Parse)) : Prop :=
  ∀ lexed : Lexed δ, lexed.json.Ok → lexed.json.currentDepth + d = cfg.decodeMaxDepth →
    Outcome (fun r => lexed.json.Later r.2 ∧ r.2.currentDepth = lexed.json.currentDepth ∧
      (∀ message, lexed.token ≠ .error message) ∧
      ∀ text, Lex cfg nums text lexed.token lexed.json.ptr → Parses cfg nums d text (.value r.1) r.2.ptr) (processValue lexed)

theorem luaRawset_index {pairs : List (Key × Tree δ)} {i : Nat} (h : ∀ pair ∈ pairs, ∃ j < i, pair.1 = .index j)
    (tree : Tree δ) : luaRawset pairs (.index i) tree = pairs ++ [(.index i, tree)] := by
  rw [luaRawset, if_neg]
  rw [List.any_eq_true]
  rintro ⟨pair, hpair, heq⟩
  obtain ⟨j, hj, hkey⟩ := h pair hpair
  rw [decide_eq_true_iff, hkey] at heq
  cases heq
  exact Nat.lt_irrefl _ hj

theorem indices_snoc {pairs : List (Key × Tree δ)} {i : Nat} (h : ∀ pair ∈ pairs, ∃ j < i, pair.1 = .index j)
    (tree : Tree δ) : ∀ pair ∈ pairs ++ [(.index i, tree)], ∃ j < i + 1, pair.1 = .index j := by
  intro pair hpair
  rcases List.mem_append.mp hpair with hold | hnew
  · obtain ⟨j, hj, hkey⟩ := h pair hold
    exact ⟨j, by omega, hkey⟩
  · rw [List.mem_singleton] at hnew
    exact ⟨i, by omega, by rw [hnew]⟩

theorem outcome_arrayLoop (hnums : nums.Lawful) {d : Nat} {processValue : Lexed δ → Decoding (Tree δ × Parse)}
    (hvalue : ValueSound cfg nums d processValue) {rounds i : Nat} {lexed : Lexed δ} {pairs : List (Key × Tree δ)}
    (hrounds : lexed.json.ptr.length < rounds) (hok : lexed.json.Ok)
    (hdepth : lexed.json.currentDepth + d = cfg.decodeMaxDepth) (hpairs : ∀ pair ∈ pairs, ∃ j < i, pair.1 = .index j) :
    Outcome (fun r => lexed.json.Later r.2 ∧ r.2.currentDepth = lexed.json.currentDepth - 1 ∧
      (∀ message, lexed.token ≠ .error message) ∧ ∃ trees, r.1 = .table (pairs ++ indexed i trees) ∧
        ∀ text, Lex cfg nums text lexed.token lexed.json.ptr → Parses cfg nums d text (.elements trees) r.2.ptr)
      (arrayLoop cfg nums processValue rounds i lexed pairs) := by
  induction rounds generalizing i lexed pairs with
  | zero => exact absurd hrounds (Nat.not_lt_zero _)
  | succ rounds ih =>
    rw [arrayLoop]
    refine (hvalue lexed hok hdepth).bind ?_
    rintro ⟨tree, json⟩ ⟨hlater, hdepth₁, htoken, hparses⟩
    refine (outcome_jsonNextToken hnums hlater.ok).bind ?_
    intro lexed₁ hnext
    have hlater₁ := hlater.trans hnext.1
    simp only [luaRawset_index hpairs tree]
    by_cases hend : lexed₁.token.type = .arrEnd
    · rw [if_pos hend]
      have hclose := hnext.lex (eq_of_type.2.1 hend) (by simp)
      refine ⟨⟨hlater₁.ok.of_depth _, hlater₁.length_le, hlater₁.size_eq⟩, ?_, htoken, [tree], rfl, fun text htext => ?_⟩
      · show lexed₁.json.currentDepth - 1 = _
        rw [hnext.2.1, hdepth₁]
      · exact .lastElement (hparses text htext) hclose
    rw [if_neg hend]
    by_cases hcomma : lexed₁.token.type = .comma
    · rw [if_neg (not_not.mpr hcomma)]
      have hlex := hnext.lex (eq_of_type.2.2.1 hcomma) (by simp)
      have hlt : lexed₁.json.ptr.length < json.ptr.length := hlex.length_lt (by simp)
      refine (outcome_jsonNextToken hnums hnext.1.ok).bind ?_
      intro lexed₂ hnext₂
      have hdepth₂ : lexed₂.json.currentDepth = lexed.json.currentDepth := by rw [hnext₂.2.1, hnext.2.1, hdepth₁]
      have hlength := hnext₂.1.length_le
      have hlength₁ : json.ptr.length ≤ lexed.json.ptr.length := hlater.length_le
      refine (ih (by omega) hnext₂.1.ok (by omega) (indices_snoc hpairs tree)).mono ?_
      rintro ⟨table, json'⟩ ⟨hlater', hdepth', htoken', trees, htable, hrest⟩
      refine ⟨(hlater₁.trans hnext₂.1).trans hlater', by rw [hdepth', hdepth₂], htoken, tree :: trees, ?_, fun text htext => ?_⟩
      · rw [htable, List.append_assoc]
        rfl
      · exact .element (hparses text htext) hlex (hrest _ (hnext₂.2.2 htoken'))
    · rw [if_pos hcomma]
      exact outcome_throw _ _

theorem outcome_objectLoop (hnums : nums.Lawful) {d : Nat} {processValue : Lexed δ → Decoding (Tree δ × Parse)}
    (hvalue : ValueSound cfg nums d processValue) {rounds : Nat} {lexed : Lexed δ} {pairs : List (Key × Tree δ)}
    (hrounds : lexed.json.ptr.length < rounds) (hok : lexed.json.Ok)
    (hdepth : lexed.json.currentDepth + d = cfg.decodeMaxDepth) :
    Outcome (fun r => lexed.json.Later r.2 ∧ r.2.currentDepth = lexed.json.currentDepth - 1 ∧
      (∀ message, lexed.token ≠ .error message) ∧ ∃ members, r.1 = .table (setAll pairs members) ∧
        ∀ text, Lex cfg nums text lexed.token lexed.json.ptr → Parses cfg nums d text (.members members) r.2.ptr)
      (objectLoop cfg nums processValue rounds lexed pairs) := by
  induction rounds generalizing lexed pairs with
  | zero => exact absurd hrounds (Nat.not_lt_zero _)
  | succ rounds ih =>
    rw [objectLoop]
    cases htoken : lexed.token with
    | string key =>
      simp only
      refine (outcome_jsonNextToken hnums hok).bind ?_
      intro lexed₁ hnext₁
      by_cases hcolon : lexed₁.token.type = .colon
      · rw [if_neg (not_not.mpr hcolon)]
        have hlex₁ := hnext₁.lex (eq_of_type.2.2.2.1 hcolon) (by simp)
        refine (outcome_jsonNextToken hnums hnext₁.1.ok).bind ?_
        intro lexed₂ hnext₂
        have hlater₂ := hnext₁.1.trans hnext₂.1
        have hdepth₂ : lexed₂.json.currentDepth = lexed.json.currentDepth := by rw [hnext₂.2.1, hnext₁.2.1]
        refine (hvalue lexed₂ hnext₂.1.ok (by rw [hdepth₂]; exact hdepth)).bind ?_
        rintro ⟨tree, json⟩ ⟨hlater, hdepth₃, htoken₂, hparses⟩
        refine (outcome_jsonNextToken hnums hlater.ok).bind ?_
        intro lexed₃ hnext₃
        have hlater₃ := (hlater₂.trans hlater).trans hnext₃.1
        have hdepth₃' : lexed₃.json.currentDepth = lexed.json.currentDepth := by rw [hnext₃.2.1, hdepth₃, hdepth₂]
        have htree := hparses _ (hnext₂.2.2 htoken₂)
        by_cases hend : lexed₃.token.type = .objEnd
        · rw [if_pos hend]
          have hclose := hnext₃.lex (eq_of_type.1 hend) (by simp)
          refine ⟨⟨hlater₃.ok.of_depth _, hlater₃.length_le, hlater₃.size_eq⟩, ?_, by simp, [(key, tree)], rfl,
            fun text htext => ?_⟩
          · show lexed₃.json.currentDepth - 1 = _
            rw [hdepth₃']
          · exact .lastMember htext hlex₁ htree hclose
        rw [if_neg hend]
        by_cases hcomma : lexed₃.token.type = .comma
        · rw [if_neg (not_not.mpr hcomma)]
          have hlex₃ := hnext₃.lex (eq_of_type.2.2.1 hcomma) (by simp)
          have hlt : lexed₃.json.ptr.length < json.ptr.length := hlex₃.length_lt (by simp)
          have hlength : json.ptr.length ≤ lexed.json.ptr.length := (hlater₂.trans hlater).length_le
          refine (outcome_jsonNextToken hnums hnext₃.1.ok).bind ?_
          intro lexed₄ hnext₄
          have hlength₄ := hnext₄.1.length_le
          have hdepth₄ := hnext₄.2.1
          refine (ih (by omega) hnext₄.1.ok (by omega)).mono ?_
          rintro ⟨table, json'⟩ ⟨hlater', hdepth', htoken', members, htable, hrest⟩
          refine ⟨(hlater₃.trans hnext₄.1).trans hlater', by rw [hdepth', hdepth₄, hdepth₃'], by simp, (key, tree) :: members,
            htable, fun text htext => ?_⟩
          exact .member htext hlex₁ htree hlex₃ (hrest _ (hnext₄.2.2 htoken'))
        · rw [if_pos hcomma]
          exact outcome_throw _ _
      · rw [if_pos hcolon]
        exact outcome_throw _ _
    | _ => exact outcome_throw _ _

theorem outcome_jsonDecodeDescend {json : Parse} {d : Nat} (hdepth : json.currentDepth + d = cfg.decodeMaxDepth) :
    Outcome (fun json' => json' = { json with currentDepth := json.currentDepth + 1 } ∧ 0 < d)
      (jsonDecodeDescend cfg json) := by
  unfold jsonDecodeDescend
  simp only
  split
  · exact ⟨rfl, by omega⟩
  · intro h
    cases h

theorem outcome_jsonParseArrayContext (hnums : nums.Lawful) {d : Nat} {processValue : Lexed δ → Decoding (Tree δ × Parse)}
    (hvalue : ∀ d', d = d' + 1 → ValueSound cfg nums d' processValue) {json : Parse} (hok : json.Ok)
    (hdepth : json.currentDepth + d = cfg.decodeMaxDepth) :
    Outcome (fun r => json.Later r.2 ∧ r.2.currentDepth = json.currentDepth ∧
      ∀ text, Lex cfg nums text .arrBegin json.ptr → Parses cfg nums d text (.value r.1) r.2.ptr)
      (jsonParseArrayContext cfg nums processValue json) := by
  rw [jsonParseArrayContext]
  refine (outcome_jsonDecodeDescend hdepth).bind ?_
  rintro _ ⟨rfl, hpos⟩
  obtain ⟨d, rfl⟩ := Nat.exists_eq_add_one.mpr hpos
  refine (outcome_jsonNextToken hnums (hok.of_depth _)).bind ?_
  intro lexed hnext
  have hdepth₁ : lexed.json.currentDepth = json.currentDepth + 1 := hnext.2.1
  have hlength : lexed.json.ptr.length ≤ json.ptr.length := hnext.1.length_le
  by_cases hend : lexed.token.type = .arrEnd
  · rw [if_pos hend]
    have hclose := hnext.lex (eq_of_type.2.1 hend) (by simp)
    refine ⟨⟨hnext.1.ok.of_depth _, hlength, hnext.1.size_eq⟩, ?_, fun text htext => .emptyArray htext hclose⟩
    show lexed.json.currentDepth - 1 = _
    omega
  · rw [if_neg hend]
    refine (outcome_arrayLoop hnums (hvalue d rfl) (Nat.lt_succ_of_le hlength) hnext.1.ok (by omega) (by simp)).mono ?_
    rintro ⟨table, json'⟩ ⟨hlater, hdepth', htoken, trees, htable, hparses⟩
    refine ⟨⟨hlater.ok, hlater.length_le.trans hlength, hlater.size_eq.trans hnext.1.size_eq⟩, ?_, fun text htext => ?_⟩
    · show json'.currentDepth = _
      rw [hdepth', hdepth₁]
      rfl
    · show Parses cfg nums (d + 1) text (.value table) json'.ptr
      rw [show table = _ from htable, List.nil_append]
      exact .array htext (hparses _ (hnext.2.2 htoken))

theorem outcome_jsonParseObjectContext (hnums : nums.Lawful) {d : Nat} {processValue : Lexed δ → Decoding (Tree δ × Parse)}
    (hvalue : ∀ d', d = d' + 1 → ValueSound cfg nums d' processValue) {json : Parse} (hok : json.Ok)
    (hdepth : json.currentDepth + d = cfg.decodeMaxDepth) :
    Outcome (fun r => json.Later r.2 ∧ r.2.currentDepth = json.currentDepth ∧
      ∀ text, Lex cfg nums text .objBegin json.ptr → Parses cfg nums d text (.value r.1) r.2.ptr)
      (jsonParseObjectContext cfg nums processValue json) := by
  rw [jsonParseObjectContext]
  refine (outcome_jsonDecodeDescend hdepth).bind ?_
  rintro _ ⟨rfl, hpos⟩
  obtain ⟨d, rfl⟩ := Nat.exists_eq_add_one.mpr hpos
  refine (outcome_jsonNextToken hnums (hok.of_depth _)).bind ?_
  intro lexed hnext
  have hdepth₁ : lexed.json.currentDepth = json.currentDepth + 1 := hnext.2.1
  have hlength : lexed.json.ptr.length ≤ json.ptr.length := hnext.1.length_le
  by_cases hend : lexed.token.type = .objEnd
  · rw [if_pos hend]
    have hclose := hnext.lex (eq_of_type.1 hend) (by simp)
    refine ⟨⟨hnext.1.ok.of_depth _, hlength, hnext.1.size_eq⟩, ?_, fun text htext => .emptyObject htext hclose⟩
    show lexed.json.currentDepth - 1 = _
    omega
  · rw [if_neg hend]
    refine (outcome_objectLoop hnums (hvalue d rfl) (Nat.lt_succ_of_le hlength) hnext.1.ok (by omega)).mono ?_
    rintro ⟨table, json'⟩ ⟨hlater, hdepth', htoken, members, htable, hparses⟩
    refine ⟨⟨hlater.ok, hlater.length_le.trans hlength, hlater.size_eq.trans hnext.1.size_eq⟩, ?_, fun text htext => ?_⟩
    · show json'.currentDepth = _
      rw [hdepth', hdepth₁]
      rfl
    · show Parses cfg nums (d + 1) text (.value table) json'.ptr
      rw [show table = _ from htable]
      exact .object htext (hparses _ (hnext.2.2 htoken))

theorem valueSound_succ (hnums : nums.Lawful) {d : Nat}
    (hnested : ∀ d', d = d' + 1 → ValueSound cfg nums d' (jsonProcessValue cfg nums d)) :
    ValueSound cfg nums d (jsonProcessValue cfg nums (d + 1)) := by
  intro lexed hok hdepth
  have hlater : lexed.json.Later lexed.json := ⟨hok, Nat.le_refl _, rfl⟩
  rw [jsonProcessValue]
  cases htoken : lexed.token with
  | string s => exact ⟨hlater, rfl, by simp, fun text htext => .string htext⟩
  | number n => exact ⟨hlater, rfl, by simp, fun text htext => .number htext⟩
  | boolean b => exact ⟨hlater, rfl, by simp, fun text htext => .boolean htext⟩
  | null => exact ⟨hlater, rfl, by simp, fun text htext => .null htext⟩
  | arrBegin =>
    refine (outcome_jsonParseArrayContext hnums hnested hok hdepth).mono ?_
    intro r hr
    exact ⟨hr.1, hr.2.1, by simp, hr.2.2⟩
  | objBegin =>
    refine (outcome_jsonParseObjectContext hnums hnested hok hdepth).mono ?_
    intro r hr
    exact ⟨hr.1, hr.2.1, by simp, hr.2.2⟩
  | _ => exact outcome_throw _ _

/-- Every value that is returned is in the text. -/
theorem valueSound_jsonProcessValue (hnums : nums.Lawful) (d : Nat) :
    ValueSound cfg nums d (jsonProcessValue cfg nums (d + 1)) := by
  induction d with
  | zero => exact valueSound_succ hnums fun d' h => absurd h (Nat.succ_ne_zero d').symm
  | succ d ih =>
    apply valueSound_succ hnums
    intro d' h
    obtain rfl := Nat.succ.inj h
    exact ih

/-- A text that begins as one in UTF-16 or UTF-32. -/
def Utf16 (text : List UInt8) : Prop := 2 ≤ text.length ∧ (text[0]? = some 0 ∨ text[1]? = some 0)

theorem init_spec {text : List UInt8} (hlen : text.length < intMax) :
    ∃ tmp, Strbuf.init (toInt text.length) = some tmp ∧ text.length + 1 ≤ tmp.size := by
  have hint : toInt text.length = text.length := by
    unfold intMax at hlen
    exact Int.bmod_eq_of_le (by omega) (by omega)
  rw [hint, Strbuf.init]
  by_cases hzero : (text.length : Int) ≤ 0
  · refine ⟨_, if_pos hzero, ?_⟩
    show text.length + 1 ≤ 1023
    omega
  · refine ⟨_, by rw [if_neg hzero, if_pos (by omega)], ?_⟩
    show text.length + 1 ≤ ((text.length : Int) + 1).toNat
    omega

theorem outcome_jsonDecode (hnums : nums.Lawful) {text : List UInt8} (hlen : text.length < intMax) :
    Outcome (fun tree => ¬ Utf16 text ∧ Denotes cfg nums text tree) (jsonDecode cfg nums text) := by
  obtain ⟨tmp, htmp, hsize⟩ := init_spec hlen
  have hok : (⟨(text ++ [0]).length, text ++ [0], tmp, 0⟩ : Parse).Ok := ⟨by simp, by simpa using hsize⟩
  rw [jsonDecode]
  by_cases hutf16 : Utf16 text
  · unfold Utf16 at hutf16
    rw [if_pos hutf16]
    intro h
    cases h
  · have hnot := hutf16
    unfold Utf16 at hnot
    rw [if_neg hnot, htmp]
    refine (outcome_jsonNextToken hnums hok).bind ?_
    intro lexed hnext
    refine (valueSound_jsonProcessValue hnums cfg.decodeMaxDepth lexed hnext.1.ok (by rw [hnext.2.1]; simp)).bind ?_
    rintro ⟨tree, json⟩ ⟨hlater, -, htoken, hparses⟩
    refine (outcome_jsonNextToken hnums hlater.ok).bind ?_
    intro lexed₁ hnext₁
    by_cases hend : lexed₁.token.type = .endText
    · rw [if_neg (not_not.mpr hend)]
      exact ⟨hutf16, _, _, hparses _ (hnext.2.2 htoken), hnext₁.lex (eq_of_type.2.2.2.2 hend) (by simp)⟩
    · rw [if_pos hend]
      exact outcome_throw _ _

/-! ### The other direction -/

theorem Parses.length_lt {d : Nat} {text rest : List UInt8} {item : Item δ} (h : Parses cfg nums d text item rest) :
    rest.length < text.length := by
  induction h with
  | string h => exact h.length_lt (by simp)
  | number h => exact h.length_lt (by simp)
  | boolean h => exact h.length_lt (by simp)
  | null h => exact h.length_lt (by simp)
  | emptyArray hopen hclose => exact (hclose.length_lt (by simp)).trans (hopen.length_lt (by simp))
  | array hopen h ih => exact ih.trans (hopen.length_lt (by simp))
  | lastElement h hclose ih => exact (hclose.length_lt (by simp)).trans ih
  | element h hcomma hrest ih ihrest => exact ihrest.trans ((hcomma.length_lt (by simp)).trans ih)
  | emptyObject hopen hclose => exact (hclose.length_lt (by simp)).trans (hopen.length_lt (by simp))
  | object hopen h ih => exact ih.trans (hopen.length_lt (by simp))
  | lastMember hkey hcolon h hclose ih =>
    have := hkey.length_lt (by simp)
    have := hcolon.length_lt (by simp)
    have := hclose.length_lt (by simp)
    omega
  | member hkey hcolon h hcomma hrest ih ihrest =>
    have := hkey.length_lt (by simp)
    have := hcolon.length_lt (by simp)
    have := hcomma.length_lt (by simp)
    omega

/-- Where the parser is. -/
structure Parse.At (json : Parse) (text : List UInt8) (size depth : Nat) : Prop where
  ptr_eq : json.ptr = text
  size_eq : json.tmp.size = size
  depth_eq : json.currentDepth = depth

theorem Lex.jsonNextToken_eq {text rest : List UInt8} {token : Token δ} (h : Lex cfg nums text token rest) {json : Parse}
    {size depth : Nat} (hat : json.At text size depth) (hroom : text.length ≤ size) :
    ∃ lexed, jsonNextToken cfg nums json = .ok lexed ∧ lexed.token = token ∧ lexed.json.At rest size depth := by
  obtain ⟨index, tmp, hrun, hsize⟩ := @jsonNextToken_of_lex δ cfg nums json token rest (hat.ptr_eq ▸ h)
    (by rw [hat.ptr_eq, hat.size_eq]; exact hroom)
  exact ⟨_, hrun, rfl, rfl, hsize.trans hat.size_eq, hat.depth_eq⟩

/-- The parser finds the item, from its first token on. -/
def Finds (cfg : Config) (nums : Numbers δ) (d : Nat) (text rest : List UInt8) (item : Item δ) : Prop :=
  ∀ (json : Parse) (size depth rounds : Nat), json.At text size depth → text.length ≤ size →
    depth + d ≤ cfg.decodeMaxDepth → d < rounds →
    ∃ lexed, jsonNextToken cfg nums json = .ok lexed ∧
      match item with
      | .value tree => lexed.token.type ≠ .arrEnd ∧
        ∃ json', jsonProcessValue cfg nums rounds lexed = .ok (tree, json') ∧ json'.At rest size depth
      | .elements trees => lexed.token.type ≠ .arrEnd ∧ ∀ loops i pairs, text.length ≤ loops →
        (∀ pair ∈ pairs, ∃ j < i, pair.1 = .index j) →
        ∃ json', arrayLoop cfg nums (jsonProcessValue cfg nums rounds) loops i lexed pairs =
          .ok (.table (pairs ++ indexed i trees), json') ∧ json'.At rest size (depth - 1)
      | .members members => lexed.token.type ≠ .objEnd ∧ ∀ loops pairs, text.length ≤ loops →
        ∃ json', objectLoop cfg nums (jsonProcessValue cfg nums rounds) loops lexed pairs =
          .ok (.table (setAll pairs members), json') ∧ json'.At rest size (depth - 1)

theorem finds_of_lex {d : Nat} {text rest : List UInt8} {token : Token δ} {tree : Tree δ} (h : Lex cfg nums text token rest)
    (hend : token.type ≠ .arrEnd)
    (hvalue : ∀ lexed : Lexed δ, lexed.token = token → ∀ rounds,
      jsonProcessValue cfg nums (rounds + 1) lexed = .ok (tree, lexed.json)) :
    Finds cfg nums d text rest (.value tree) := by
  intro json size depth rounds hat hroom hdepth hrounds
  obtain ⟨lexed, hnext, htoken, hat'⟩ := h.jsonNextToken_eq hat hroom
  obtain ⟨rounds, rfl⟩ := Nat.exists_eq_add_one.mpr (Nat.zero_lt_of_lt hrounds)
  exact ⟨lexed, hnext, by rw [htoken]; exact hend, lexed.json, hvalue lexed htoken rounds, hat'⟩

theorem Parse.At.descend {json : Parse} {text : List UInt8} {size depth : Nat} (hat : json.At text size depth)
    (hdepth : depth + 1 ≤ cfg.decodeMaxDepth) :
    ∃ json', jsonDecodeDescend cfg json = .ok json' ∧ json'.At text size (depth + 1) := by
  obtain ⟨hptr, hsize, rfl⟩ := hat
  refine ⟨{ json with currentDepth := json.currentDepth + 1 }, ?_, hptr, hsize, rfl⟩
  simp [jsonDecodeDescend, hdepth]

theorem Parse.At.ascend {json : Parse} {text : List UInt8} {size depth : Nat} (hat : json.At text size (depth + 1)) :
    (jsonDecodeAscend json).At text size depth := by
  refine ⟨hat.ptr_eq, hat.size_eq, ?_⟩
  show json.currentDepth - 1 = depth
  rw [hat.depth_eq]
  rfl

theorem finds_of_open {d : Nat} {text mid rest : List UInt8} {token : Token δ} {tree : Tree δ}
    (context : (Lexed δ → Decoding (Tree δ × Parse)) → Parse → Decoding (Tree δ × Parse))
    (hopen : Lex cfg nums text token mid) (htype : token.type ≠ .arrEnd ∧ token ≠ .endText)
    (hvalue : ∀ lexed : Lexed δ, lexed.token = token → ∀ rounds,
      jsonProcessValue cfg nums (rounds + 1) lexed = context (jsonProcessValue cfg nums rounds) lexed.json)
    (hcontext : ∀ (json json' : Parse) (size depth rounds : Nat), jsonDecodeDescend cfg json = .ok json' →
      json'.At mid size (depth + 1) → mid.length ≤ size → depth + 1 + d ≤ cfg.decodeMaxDepth → d < rounds →
      ∃ json'', context (jsonProcessValue cfg nums rounds) json = .ok (tree, json'') ∧ json''.At rest size depth) :
    Finds cfg nums (d + 1) text rest (.value tree) := by
  intro json size depth rounds hat hroom hdepth hrounds
  obtain ⟨lexed, hnext, htoken, hat₁⟩ := hopen.jsonNextToken_eq hat hroom
  obtain ⟨rounds, rfl⟩ := Nat.exists_eq_add_one.mpr (Nat.zero_lt_of_lt hrounds)
  obtain ⟨json₂, hdescend, hat₂⟩ := @Parse.At.descend cfg _ _ _ _ hat₁ (by omega)
  have hlt := hopen.length_lt htype.2
  obtain ⟨json₃, hrun, hat₃⟩ := hcontext _ _ _ _ rounds hdescend hat₂ (by omega) (by omega) (by omega)
  exact ⟨lexed, hnext, by rw [htoken]; exact htype.1, json₃, (hvalue lexed htoken rounds).trans hrun, hat₃⟩

theorem Parses.finds {d : Nat} {text rest : List UInt8} {item : Item δ} (h : Parses cfg nums d text item rest) :
    Finds cfg nums d text rest item := by
  induction h with
  | string h => exact finds_of_lex h (by simp [Token.type]) fun lexed htoken rounds => by simp [jsonProcessValue, htoken]
  | number h => exact finds_of_lex h (by simp [Token.type]) fun lexed htoken rounds => by simp [jsonProcessValue, htoken]
  | boolean h => exact finds_of_lex h (by simp [Token.type]) fun lexed htoken rounds => by simp [jsonProcessValue, htoken]
  | null h => exact finds_of_lex h (by simp [Token.type]) fun lexed htoken rounds => by simp [jsonProcessValue, htoken]
  | emptyArray hopen hclose =>
    apply finds_of_open (jsonParseArrayContext cfg nums) hopen (by simp [Token.type])
    · intro lexed htoken rounds
      simp [jsonProcessValue, htoken]
    · intro json json' size depth rounds hdescend hat hroom hdepth hrounds
      obtain ⟨lexed, hnext, htoken, hat'⟩ := hclose.jsonNextToken_eq hat hroom
      exact ⟨_, by simp [jsonParseArrayContext, hdescend, hnext, htoken, Token.type], hat'.ascend⟩
  | @array d text mid rest trees hopen h ih =>
    apply finds_of_open (jsonParseArrayContext cfg nums) hopen (by simp [Token.type])
    · intro lexed htoken rounds
      simp [jsonProcessValue, htoken]
    · intro json json' size depth rounds hdescend hat hroom hdepth hrounds
      obtain ⟨lexed, hnext, hend, hloop⟩ := ih json' size (depth + 1) rounds hat hroom hdepth hrounds
      obtain ⟨json'', hrun, hat''⟩ := hloop (json'.ptr.length + 1) 1 [] (by rw [hat.ptr_eq]; omega) (by simp)
      refine ⟨json'', ?_, hat''⟩
      simpa [jsonParseArrayContext, hdescend, hnext, hend] using hrun
  | @lastElement d text mid rest tree h hclose ih =>
    intro json size depth rounds hat hroom hdepth hrounds
    obtain ⟨lexed, hnext, hend, json₁, hrun, hat₁⟩ := ih json size depth rounds hat hroom hdepth hrounds
    have hlt := h.length_lt
    refine ⟨lexed, hnext, hend, fun loops i pairs hloops hpairs => ?_⟩
    obtain ⟨lexed₁, hnext₁, htoken₁, hat₂⟩ := hclose.jsonNextToken_eq hat₁ (by omega)
    obtain ⟨loops, rfl⟩ := Nat.exists_eq_add_one.mpr (show 0 < loops by omega)
    refine ⟨jsonDecodeAscend lexed₁.json, ?_, hat₂.ptr_eq, hat₂.size_eq, ?_⟩
    · simp [arrayLoop, hrun, luaRawset_index hpairs, hnext₁, htoken₁, Token.type, indexed]
    · show lexed₁.json.currentDepth - 1 = _
      rw [hat₂.depth_eq]
  | @element d text mid next rest tree trees h hcomma hrest ih ihrest =>
    intro json size depth rounds hat hroom hdepth hrounds
    obtain ⟨lexed, hnext, hend, json₁, hrun, hat₁⟩ := ih json size depth rounds hat hroom hdepth hrounds
    have hlt := h.length_lt
    have hlt₁ := hcomma.length_lt (by simp)
    refine ⟨lexed, hnext, hend, fun loops i pairs hloops hpairs => ?_⟩
    obtain ⟨lexed₁, hnext₁, htoken₁, hat₂⟩ := hcomma.jsonNextToken_eq hat₁ (by omega)
    obtain ⟨loops, rfl⟩ := Nat.exists_eq_add_one.mpr (show 0 < loops by omega)
    obtain ⟨lexed₂, hnext₂, -, hloop⟩ := ihrest lexed₁.json size depth rounds hat₂ (by omega) hdepth hrounds
    obtain ⟨json', hrun', hat'⟩ := hloop loops (i + 1) (pairs ++ [(.index i, tree)]) (by omega)
      (indices_snoc hpairs tree)
    refine ⟨json', ?_, hat'⟩
    simpa [arrayLoop, hrun, luaRawset_index hpairs, hnext₁, htoken₁, Token.type, hnext₂, indexed] using hrun'
  | emptyObject hopen hclose =>
    apply finds_of_open (jsonParseObjectContext cfg nums) hopen (by simp [Token.type])
    · intro lexed htoken rounds
      simp [jsonProcessValue, htoken]
    · intro json json' size depth rounds hdescend hat hroom hdepth hrounds
      obtain ⟨lexed, hnext, htoken, hat'⟩ := hclose.jsonNextToken_eq hat hroom
      exact ⟨_, by simp [jsonParseObjectContext, hdescend, hnext, htoken, Token.type], hat'.ascend⟩
  | @object d text mid rest members hopen h ih =>
    apply finds_of_open (jsonParseObjectContext cfg nums) hopen (by simp [Token.type])
    · intro lexed htoken rounds
      simp [jsonProcessValue, htoken]
    · intro json json' size depth rounds hdescend hat hroom hdepth hrounds
      obtain ⟨lexed, hnext, hend, hloop⟩ := ih json' size (depth + 1) rounds hat hroom hdepth hrounds
      obtain ⟨json'', hrun, hat''⟩ := hloop (json'.ptr.length + 1) [] (by rw [hat.ptr_eq]; omega)
      refine ⟨json'', ?_, hat''⟩
      simpa [jsonParseObjectContext, hdescend, hnext, hend] using hrun
  | @lastMember d text mid₁ mid₂ mid₃ rest key tree hkey hcolon h hclose ih =>
    intro json size depth rounds hat hroom hdepth hrounds
    obtain ⟨lexed, hnext, htoken, hat₁⟩ := hkey.jsonNextToken_eq hat hroom
    have hlt₁ := hkey.length_lt (by simp)
    have hlt₂ := hcolon.length_lt (by simp)
    have hlt₃ := h.length_lt
    refine ⟨lexed, hnext, by simp [htoken, Token.type], fun loops pairs hloops => ?_⟩
    obtain ⟨loops, rfl⟩ := Nat.exists_eq_add_one.mpr (show 0 < loops by omega)
    obtain ⟨lexed₁, hnext₁, htoken₁, hat₂⟩ := hcolon.jsonNextToken_eq hat₁ (by omega)
    obtain ⟨lexed₂, hnext₂, -, json₁, hrun, hat₃⟩ := ih lexed₁.json size depth rounds hat₂ (by omega) hdepth hrounds
    obtain ⟨lexed₃, hnext₃, htoken₃, hat₄⟩ := hclose.jsonNextToken_eq hat₃ (by omega)
    refine ⟨jsonDecodeAscend lexed₃.json, ?_, hat₄.ptr_eq, hat₄.size_eq, ?_⟩
    · simp [objectLoop, htoken, hnext₁, htoken₁, hnext₂, hrun, hnext₃, htoken₃, Token.type, setAll]
    · show lexed₃.json.currentDepth - 1 = _
      rw [hat₄.depth_eq]
  | @member d text mid₁ mid₂ mid₃ next rest key tree members hkey hcolon h hcomma hrest ih ihrest =>
    intro json size depth rounds hat hroom hdepth hrounds
    obtain ⟨lexed, hnext, htoken, hat₁⟩ := hkey.jsonNextToken_eq hat hroom
    have hlt₁ := hkey.length_lt (by simp)
    have hlt₂ := hcolon.length_lt (by simp)
    have hlt₃ := h.length_lt
    have hlt₄ := hcomma.length_lt (by simp)
    refine ⟨lexed, hnext, by simp [htoken, Token.type], fun loops pairs hloops => ?_⟩
    obtain ⟨loops, rfl⟩ := Nat.exists_eq_add_one.mpr (show 0 < loops by omega)
    obtain ⟨lexed₁, hnext₁, htoken₁, hat₂⟩ := hcolon.jsonNextToken_eq hat₁ (by omega)
    obtain ⟨lexed₂, hnext₂, -, json₁, hrun, hat₃⟩ := ih lexed₁.json size depth rounds hat₂ (by omega) hdepth hrounds
    obtain ⟨lexed₃, hnext₃, htoken₃, hat₄⟩ := hcomma.jsonNextToken_eq hat₃ (by omega)
    obtain ⟨lexed₄, hnext₄, -, hloop⟩ := ihrest lexed₃.json size depth rounds hat₄ (by omega) hdepth hrounds
    obtain ⟨json', hrun', hat'⟩ := hloop loops (luaRawset pairs (.string key) tree) (by omega)
    refine ⟨json', ?_, hat'⟩
    simpa [objectLoop, htoken, hnext₁, htoken₁, hnext₂, hrun, hnext₃, htoken₃, hnext₄, Token.type, setAll] using hrun'

theorem jsonDecode_of_denotes {text : List UInt8} {tree : Tree δ} (hlen : text.length < intMax) (hutf16 : ¬ Utf16 text)
    (h : Denotes cfg nums text tree) : jsonDecode cfg nums text = .ok tree := by
  obtain ⟨mid, rest, hparses, hend⟩ := h
  obtain ⟨tmp, htmp, hsize⟩ := init_spec hlen
  have hroom : (text ++ [0]).length ≤ tmp.size := by simpa using hsize
  have hlt := hparses.length_lt
  obtain ⟨lexed, hnext, -, json, hrun, hat⟩ := hparses.finds ⟨(text ++ [0]).length, text ++ [0], tmp, 0⟩ tmp.size 0
    (cfg.decodeMaxDepth + 1) ⟨rfl, rfl, rfl⟩ hroom (by omega) (by omega)
  obtain ⟨lexed₁, hnext₁, htoken₁, -⟩ := hend.jsonNextToken_eq hat (by omega)
  unfold Utf16 at hutf16
  rw [jsonDecode, if_neg hutf16, htmp]
  simp only [stored, ok_bind, hnext, hrun, hnext₁, htoken₁, Token.type]
  rfl

/-- **What `json_decode` accepts.** For every text that is shorter than the largest `int`, the call returns a value exactly when
the text does not begin as one in UTF-16 and denotes that value. It always comes back, and neither reads behind the text nor
writes behind the temporary buffer. -/
theorem jsonDecode_eq_ok_iff (hnums : nums.Lawful) (text : List UInt8) (hlen : text.length < intMax) :
    jsonDecode cfg nums text ≠ .error .fault ∧
      ∀ tree, jsonDecode cfg nums text = .ok tree ↔ ¬ Utf16 text ∧ Denotes cfg nums text tree := by
  have houtcome : Outcome (fun tree => ¬ Utf16 text ∧ Denotes cfg nums text tree) (jsonDecode cfg nums text) :=
    outcome_jsonDecode hnums hlen
  refine ⟨?_, fun tree => ⟨?_, fun h => jsonDecode_of_denotes hlen h.1 h.2⟩⟩
  · intro h
    rw [h] at houtcome
    exact houtcome rfl
  · intro h
    rw [h] at houtcome
    exact houtcome

/-- `[1]` is accepted, and `[1,]` is not. -/
theorem jsonDecode_eq_ok_iff_comma :
    Denotes Config.packer digits [91, 49, 93] (.table [(.index 1, .number 1)]) ∧
      ∀ tree, ¬ Denotes Config.packer digits [91, 49, 44, 93] tree := by
  refine ⟨?_, fun tree htree => ?_⟩
  · exact (((jsonDecode_eq_ok_iff lawful_digits [91, 49, 93] (by decide)).2 _).mp rfl).2
  · have hutf16 : ¬ Utf16 [91, 49, 44, 93] := by simp [Utf16]
    have hrun := ((jsonDecode_eq_ok_iff lawful_digits [91, 49, 44, 93] (by decide)).2 tree).mpr ⟨hutf16, htree⟩
    cases hrun

end SkynetServer.Cjson
